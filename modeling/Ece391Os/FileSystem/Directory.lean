import Ece391Os.FileSystem.Descriptors
import Ece391Os.FileSystem.Lookup

/-!
# Reading a directory

`filesystem_read` of a directory returns one name for each call. It takes the length of the name
with `strlen`, from a field that has no NUL when the name fills it, and never looks at the caller's
size.

* `DirState` counts the reads of a descriptor since it was opened. In a directory of `n` entries,
  read number `k` is for entry `k % (n + 1)`, or ends a round.
* `DeliversName`: the read returns the name, cut to the caller's size, and stores nothing else.
* `FitsRequest`: the name ends inside its field or right behind it, and the caller asks for all of
  it.
* `along_deliversName_iff`: in a sequence of reads of a newly opened directory, every read delivers
  its name exactly when every name fits.
-/

namespace Ece391

open Transition

/-- A read of a directory. -/
structure DirRead where
  buf : Buffer
  nbytes : Word

/-- The table of a process, and the reads of a descriptor since it was opened. -/
structure DirState where
  descs : DescTable
  reads : ℕ

/-- One read of descriptor `fd`. -/
def dirStep (img : FsImage) (fd : Fin 8) (s : DirState) (e : DirRead) : Option DirState :=
  (readCall img (BitVec.ofNat 32 fd.val) e.buf e.nbytes s.descs).map fun (_, descs) =>
    { descs, reads := s.reads + 1 }

/-- The entry that is next, or the number of entries at the end of a round. -/
def DirState.next (img : FsImage) (s : DirState) : ℕ := s.reads % (img.numOfEntries.toNat + 1)

/-- The read returns the name of the next entry, at most as many bytes of it as are asked for, and
stores these bytes only. At the end of a round it returns 0. -/
def DeliversName (img : FsImage) (fd : Fin 8) (s : DirState) (e : DirRead) : Prop :=
  ∃ ret buf descs,
    readCall img (BitVec.ofNat 32 fd.val) e.buf e.nbytes s.descs = some (.value ret buf, descs) ∧
    if s.next img < img.numOfEntries.toNat then
      let m := min (img.entryString (s.next img)).length (min e.nbytes.toNat 32)
      ret = BitVec.ofNat 32 m ∧ buf = e.buf.overwrite (img.entryName (s.next img)) m
    else ret = 0#32 ∧ buf = e.buf

/-- The name of the next entry ends inside its field, or the byte behind the field is zero, and the
request has room for it. -/
def FitsRequest (img : FsImage) (s : DirState) (e : DirRead) : Prop :=
  s.next img < img.numOfEntries.toNat →
    ((img.entryString (s.next img)).length < 32 ∨ img.entryName (s.next img) 32 = 0#8) ∧
      (img.entryString (s.next img)).length ≤ e.nbytes.toNat

instance (img : FsImage) (s : DirState) (e : DirRead) : Decidable (FitsRequest img s e) :=
  inferInstanceAs (Decidable (_ → _))

section

variable {img : FsImage} {fd : Fin 8} {s s' : DirState} {e : DirRead}

/-! ## One read -/

/-- The descriptor is that of a directory, at the next entry. -/
structure DirState.AtNext (img : FsImage) (fd : Fin 8) (s : DirState) : Prop where
  two_le : 2 ≤ fd.val
  flags : (s.descs fd).flags ≠ 0#32
  fileOpsTablePtr : (s.descs fd).fileOpsTablePtr = some .fileSystem
  inodePtr : (s.descs fd).inodePtr = -1#32
  filePos : (s.descs fd).filePos = BitVec.ofNat 32 (s.next img)

namespace DirState.AtNext

theorem next_le (img : FsImage) (s : DirState) : s.next img ≤ img.numOfEntries.toNat :=
  Nat.lt_succ_iff.mp (Nat.mod_lt _ (Nat.succ_pos _))

theorem filePos_toNat (h : s.AtNext img fd) : (s.descs fd).filePos.toNat = s.next img := by
  have hle := next_le img s
  rw [h.filePos, FsImage.toNat_ofNat_of_lt (by omega)]

/-- A read of the descriptor is a read of the directory. -/
theorem readCall_eq (h : s.AtNext img fd) (e : DirRead) :
    readCall img (BitVec.ofNat 32 fd.val) e.buf e.nbytes s.descs =
      if s.next img < img.numOfEntries.toNat then
        (strlen (img.entryName (s.next img))).map fun fnLen =>
          (.value (BitVec.ofNat 32 fnLen) (e.buf.overwrite (img.entryName (s.next img)) fnLen),
            Function.update s.descs fd
              { s.descs fd with filePos := (s.descs fd).filePos + 1#32 })
      else
        some (.value 0#32 e.buf,
          Function.update s.descs fd { s.descs fd with filePos := 0#32 }) := by
  have hfd : fdIndex (BitVec.ofNat 32 fd.val) = some fd := by
    rw [fdIndex, dif_pos (by rw [FsImage.toNat_ofNat_of_lt (by omega)]; exact fd.isLt)]
    simp [Nat.mod_eq_of_lt (by omega : fd.val < 4294967296)]
  -- descriptor 1 is stdout, which cannot be read
  have hne : fd ≠ 1 := by
    rintro rfl
    exact absurd h.two_le (by decide)
  have hread : readCall img (BitVec.ofNat 32 fd.val) e.buf e.nbytes s.descs =
      filesystemRead img fd e.buf e.nbytes s.descs := by
    rw [readCall, hfd]
    simp only [if_neg hne, if_neg h.flags, h.fileOpsTablePtr]
  rw [hread, filesystemRead, if_neg (not_not.mpr h.inodePtr)]
  simp only [h.filePos_toNat]
  split_ifs
  · cases strlen (img.entryName (s.next img)) <;> rfl
  · rfl

/-- The position goes to the next entry, and back to the first one at the end. -/
theorem dirStep (h : s.AtNext img fd) (hstep : dirStep img fd s e = some s') :
    s'.AtNext img fd := by
  have hle := next_le img s
  have hlt := img.numOfEntries.isLt
  obtain ⟨⟨result, descs⟩, hread, rfl⟩ := Option.map_eq_some_iff.mp hstep
  rw [h.readCall_eq] at hread
  -- the reads are counted modulo the entries and the end of the round
  have hnext : DirState.next img { descs, reads := s.reads + 1 } =
      if s.next img < img.numOfEntries.toNat then s.next img + 1 else 0 := by
    change (s.reads + 1) % _ = _
    rw [← Nat.mod_add_mod]
    change (s.next img + 1) % _ = _
    split_ifs with hin
    · exact Nat.mod_eq_of_lt (by omega)
    · rw [show s.next img = img.numOfEntries.toNat by omega, Nat.mod_self]
  split_ifs at hread hnext with hin
  · -- an entry has been returned, and the position is one further
    obtain ⟨fnLen, -, hread⟩ := Option.map_eq_some_iff.mp hread
    cases hread
    refine ⟨h.two_le, ?_, ?_, ?_, ?_⟩ <;> simp only [Function.update_self]
    · exact h.flags
    · exact h.fileOpsTablePtr
    · exact h.inodePtr
    · rw [hnext, h.filePos, BitVec.ofNat_add]
  · -- the end of the round, and the position is 0 again
    cases hread
    refine ⟨h.two_le, ?_, ?_, ?_, ?_⟩ <;> simp only [Function.update_self]
    · exact h.flags
    · exact h.fileOpsTablePtr
    · exact h.inodePtr
    · rw [hnext]

/-- A read delivers the name exactly if it fits. -/
theorem deliversName_iff (h : s.AtNext img fd) :
    DeliversName img fd s e ↔ FitsRequest img s e := by
  rw [DeliversName, FitsRequest]
  simp only [h.readCall_eq]
  by_cases hin : s.next img < img.numOfEntries.toNat
  · simp only [hin, if_true, true_imp_iff]
    obtain ⟨hle, hchars, hend⟩ := length_stringOf_spec (img.entryName (s.next img)) 32
    rw [FsImage.entryString, ← strlen_eq_length_stringOf_iff (by decide)]
    set len := (stringOf (img.entryName (s.next img)) 32).length
    constructor
    · rintro ⟨ret, buf, descs, hread, hret, -⟩
      obtain ⟨fnLen, hlen, hread⟩ := Option.map_eq_some_iff.mp hread
      cases hread
      obtain ⟨hlt, hzero, -⟩ := strlen_eq_some.mp hlen
      -- `strlen` is not shorter than the name, which is what is left of the three
      have hge : len ≤ fnLen := by
        by_contra hshort
        exact hchars fnLen (by omega) hzero
      -- the length that is returned is that of the name, cut to the request and to 32
      have hval := congrArg BitVec.toNat hret
      rw [FsImage.toNat_ofNat_of_lt hlt, FsImage.toNat_ofNat_of_lt (by omega)] at hval
      have heq : fnLen = len := by omega
      exact ⟨heq ▸ hlen, by omega⟩
    · rintro ⟨hlen, hroom⟩
      have hmin : min len (min e.nbytes.toNat 32) = len := by omega
      rw [hmin, hlen]
      exact ⟨_, _, _, rfl, rfl, rfl⟩
  · -- the end of a round returns 0 in any case
    simp only [hin, if_false, false_imp_iff, iff_true]
    exact ⟨_, _, _, rfl, rfl, rfl⟩

end DirState.AtNext

end

/-! ## Sequences of reads -/

/-- A newly opened directory is at its first entry. -/
theorem atNext_openCall {img : FsImage} {filename : Buffer} {entry : Dentry}
    {descs descs₀ : DescTable} {fd : Fin 8} (hentry : img.readDentryByName filename = some entry)
    (htype : entry.filetype = 1#32)
    (hopen : openCall img filename descs = some (some fd, descs₀)) :
    DirState.AtNext img fd { descs := descs₀, reads := 0 } := by
  -- the entry that was free has been set up for the file
  have hdesc : descs₀ fd = openedDesc entry (descs fd) := by
    rw [openCall, hentry] at hopen
    cases hfree : freeDesc descs with
    | none => simp [hfree] at hopen
    | some i =>
      simp only [hfree] at hopen
      obtain ⟨ops, -, hopen⟩ := Option.map_eq_some_iff.mp hopen
      cases hopen
      exact Function.update_self _ _ _
  have htwo : 2 ≤ fd.val := by
    rcases openCall_cases hopen with ⟨hnone, -⟩ | ⟨i, -, hi, htwo, -⟩
    · cases hnone
    · cases hi
      exact htwo
  have hnext : DirState.next img { descs := descs₀, reads := 0 } = 0 := Nat.zero_mod _
  rw [openedDesc, if_neg (by rw [htype]; decide), if_pos htype] at hdesc
  refine ⟨htwo, ?_, ?_, ?_, ?_⟩ <;> dsimp only <;> rw [hdesc]
  · decide
  · rw [hnext]

/-- Every read of a newly opened directory returns the name of the next entry, round after round,
exactly when every name that is read fits its field and the request. -/
theorem along_deliversName_iff {img : FsImage} {filename : Buffer} {entry : Dentry}
    {descs descs₀ : DescTable} {fd : Fin 8} (hentry : img.readDentryByName filename = some entry)
    (htype : entry.filetype = 1#32)
    (hopen : openCall img filename descs = some (some fd, descs₀)) (reads : List DirRead) :
    Along (dirStep img fd) (DeliversName img fd) { descs := descs₀, reads := 0 } reads ↔
      Along (dirStep img fd) (FitsRequest img) { descs := descs₀, reads := 0 } reads :=
  along_iff_of_invariant (I := fun s => s.AtNext img fd) (R := fun _ => True)
    (fun _ _ _ h _ _ hstep => h.dirStep hstep) (fun _ _ h _ => h.deliversName_iff)
    (atNext_openCall hentry htype hopen) fun _ _ => trivial

/-- A directory of `n` entries: itself, a short name, and a file whose name fills its field. -/
def directoryImage (n : Byte) : FsImage where
  filesystemBase := 0#32
  mem := memoryOf [(0, [n, 0#8, 0#8, 0#8, 1#8, 0#8, 0#8, 0#8, 1#8]),
    (64, ascii "."), (96, [1#8]), (128, ascii "note"), (160, [2#8]),
    (192, ascii "verylargetxtwithverylongname.txt"), (224, [2#8])]

/-- The descriptors of a process that has opened nothing. -/
def newDescs : DescTable := initDescs fun _ => ⟨none, 0#32, 0#32, 0#32⟩

/-- Two rounds over two short names, with requests of 32 bytes as `ls` makes them. -/
theorem along_deliversName_twoRounds :
    ∃ descs₀, openCall (directoryImage 2#8) (commandLine ".") newDescs = some (some 2, descs₀) ∧
      Along (dirStep (directoryImage 2#8) 2) (DeliversName (directoryImage 2#8) 2)
        { descs := descs₀, reads := 0 } (List.replicate 6 ⟨fun _ => 0#8, 32#32⟩) := by
  have hrun : ((directoryImage 2#8).readDentryByName (commandLine ".")).any fun entry =>
      (openCall (directoryImage 2#8) (commandLine ".") newDescs).any fun opened =>
        decide (entry.filetype = 1#32 ∧ opened.1 = some 2 ∧
          Along (dirStep (directoryImage 2#8) 2) (FitsRequest (directoryImage 2#8))
            { descs := opened.2, reads := 0 } (List.replicate 6 ⟨fun _ => 0#8, 32#32⟩)) := by
    decide +kernel
  simp only [Option.any_eq_true, decide_eq_true_eq] at hrun
  obtain ⟨entry, hentry, ⟨_, descs₀⟩, hopen, htype, rfl, hfits⟩ := hrun
  exact ⟨descs₀, hopen, (along_deliversName_iff hentry htype hopen _).mpr hfits⟩

/-- The third read of `ls` returns 33 for a name of 32 bytes, and stores the type of the file behind
the request. -/
theorem not_deliversName_longName :
    ∃ descs₀ s ret buf descs,
      openCall (directoryImage 3#8) (commandLine ".") newDescs = some (some 2, descs₀) ∧
      exec (dirStep (directoryImage 3#8) 2) { descs := descs₀, reads := 0 }
        (List.replicate 2 ⟨fun _ => 0#8, 32#32⟩) = some s ∧
      readCall (directoryImage 3#8) 2#32 (fun _ => 0#8) 32#32 s.descs =
        some (.value ret buf, descs) ∧
      ret = 33#32 ∧ buf 32 = 2#8 ∧
      ¬ Along (dirStep (directoryImage 3#8) 2) (DeliversName (directoryImage 3#8) 2)
        { descs := descs₀, reads := 0 } (List.replicate 3 ⟨fun _ => 0#8, 32#32⟩) := by
  have hrun : ((directoryImage 3#8).readDentryByName (commandLine ".")).any fun entry =>
      (openCall (directoryImage 3#8) (commandLine ".") newDescs).any fun opened =>
        (exec (dirStep (directoryImage 3#8) 2) { descs := opened.2, reads := 0 }
            (List.replicate 2 ⟨fun _ => 0#8, 32#32⟩)).any fun s =>
          decide (entry.filetype = 1#32 ∧ opened.1 = some 2 ∧ s.next (directoryImage 3#8) = 2) := by
    decide +kernel
  simp only [Option.any_eq_true, decide_eq_true_eq] at hrun
  obtain ⟨entry, hentry, ⟨_, descs₀⟩, hopen, s, hs, htype, rfl, hnext⟩ := hrun
  have hat : s.AtNext (directoryImage 3#8) 2 :=
    exec_invariant (I := fun s => s.AtNext (directoryImage 3#8) 2) (P := fun _ _ => True)
      (fun _ _ _ h _ hstep => h.dirStep hstep) (atNext_openCall hentry htype hopen)
      (along_of_forall (P := fun _ => True) (fun _ _ => trivial) _) hs
  -- the type byte behind the field is counted with the name
  have hlen : strlen ((directoryImage 3#8).entryName 2) = some 33 := by decide +kernel
  have hread := hat.readCall_eq ⟨fun _ => 0#8, 32#32⟩
  rw [hnext, if_pos (by decide +kernel), hlen, Option.map_some] at hread
  refine ⟨descs₀, s, _, _, _, hopen, hs, hread, rfl, by decide +kernel, fun halong => ?_⟩
  have hlast : Along (dirStep (directoryImage 3#8) 2) (DeliversName (directoryImage 3#8) 2) s
      [⟨fun _ => 0#8, 32#32⟩] := halong.of_exec hs
  -- the name fills its field, and the type of a regular file is not zero
  have hfits := hat.deliversName_iff.mp hlast.1
  rw [FitsRequest, hnext] at hfits
  exact absurd (hfits (by decide +kernel)).1 (by decide +kernel)

end Ece391
