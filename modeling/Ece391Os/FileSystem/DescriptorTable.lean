import Ece391Os.FileSystem.Descriptors

/-!
# The table of descriptors

`open`, `close`, `read` and `write` of one process, over the table that `execute` has built.

* `writeCall` is `write` of `syscall.c`; `descStep` lets the process make the four calls in any
  order.
* `AllocatesLowest`: `open` gives out the lowest free descriptor of six, and fails exactly when
  there is none or the file does not exist.
* `Obeys` is what every call must do, and `RefusesFd` when a call must fail.
* `along_obeys`: every call of every run does, and 0 and 1 stay the terminal.
-/

namespace Ece391

open Transition

/-- What a write ends with: a value, or the call of a device's write function, which touches no
descriptor. -/
inductive WriteResult
  | value (ret : Word)
  | device (ops : OpsTable)

/-- `write`. The write function of files is `filesystem_write`, which returns -1. -/
def writeCall (fd : Word) (descs : DescTable) : Option (WriteResult × DescTable) :=
  match fdIndex fd with
  | none => some (.value (-1#32), descs)
  | some i =>
    if i = 0 then some (.value (-1#32), descs)
    else if (descs i).flags = 0#32 then some (.value (-1#32), descs)
    else
      match (descs i).fileOpsTablePtr with
      | none => none
      | some .fileSystem => some (.value (-1#32), descs)
      | some ops => some (.device ops, descs)

/-- A call on descriptors. -/
inductive DescCall
  | openFile (filename : Buffer)
  | closeFile (fd : Word)
  | readFile (fd : Word) (buf : Buffer) (nbytes : Word)
  | writeFile (fd : Word)

/-- The table after a call. -/
def descStep (img : FsImage) (descs : DescTable) : DescCall → Option DescTable
  | .openFile filename => (openCall img filename descs).map Prod.snd
  | .closeFile fd => some (closeCall fd descs).2
  | .readFile fd buf nbytes => (readCall img fd buf nbytes descs).map Prod.snd
  | .writeFile fd => (writeCall fd descs).map Prod.snd

/-! ## What the calls must do -/

/-- The descriptor is open. -/
def IsOpen (descs : DescTable) (i : Fin 8) : Prop := (descs i).flags ≠ 0#32

/-- The operations of a file, by its type. -/
def fileOps (entry : Dentry) : OpsTable := if entry.filetype = 0#32 then .rtc else .fileSystem

/-- `open` gives out the lowest free descriptor from 2 on. -/
structure AllocatesLowest (img : FsImage) (filename : Buffer) (descs : DescTable)
    (opened : Option (Fin 8)) (descs' : DescTable) : Prop where
  fails_iff : opened = none ↔
    img.readDentryByName filename = none ∨ ∀ i : Fin 8, 2 ≤ i.val → IsOpen descs i
  unchanged : opened = none → descs' = descs
  lowest : ∀ i, opened = some i →
    2 ≤ i.val ∧ ¬ IsOpen descs i ∧ ∀ j : Fin 8, 2 ≤ j.val → j < i → IsOpen descs j
  opens : ∀ i, opened = some i → IsOpen descs' i ∧ (descs' i).filePos = 0#32 ∧
    ∃ entry, img.readDentryByName filename = some entry ∧
      (descs' i).fileOpsTablePtr = some (fileOps entry)
  others : ∀ j, opened ≠ some j → descs' j = descs j

/-- The number names no descriptor, one that is barred from the call, or one that is not open. -/
def RefusesFd (descs : DescTable) (barred : List (Fin 8)) (fd : Word) : Prop :=
  ∀ i, fdIndex fd = some i → i ∈ barred ∨ ¬ IsOpen descs i

/-- What a call must do: an open allocates, a refused call returns -1 and changes nothing, a close
frees, a read moves the position of its descriptor only, and a write changes no descriptor. -/
def Obeys (img : FsImage) (descs : DescTable) : DescCall → Prop
  | .openFile filename => ∃ opened descs', openCall img filename descs = some (opened, descs') ∧
      AllocatesLowest img filename descs opened descs'
  | .closeFile fd => (RefusesFd descs [0, 1] fd → closeCall fd descs = (-1#32, descs)) ∧
      ∀ i, fdIndex fd = some i → ¬ RefusesFd descs [0, 1] fd →
        closeCall fd descs = (0#32, Function.update descs i { descs i with flags := 0#32 })
  | .readFile fd buf nbytes =>
      (RefusesFd descs [1] fd →
        readCall img fd buf nbytes descs = some (.value (-1#32) buf, descs)) ∧
      ∀ result descs', readCall img fd buf nbytes descs = some (result, descs') →
        descs' = descs ∨ ∃ i pos, fdIndex fd = some i ∧
          descs' = Function.update descs i { descs i with filePos := pos }
  | .writeFile fd =>
      (RefusesFd descs [0] fd → writeCall fd descs = some (.value (-1#32), descs)) ∧
      ∀ result descs', writeCall fd descs = some (result, descs') → descs' = descs

/-- The entry `execute` makes for standard input and output. -/
def terminalDesc : FilesysDesc :=
  { fileOpsTablePtr := some .terminal, inodePtr := 0#32, filePos := 0#32, flags := 1#32 }

/-- Standard input and output are the terminal. -/
def BoundToTerminal (descs : DescTable) : Prop := ∀ i : Fin 8, i.val < 2 → descs i = terminalDesc

/-- Every directory entry is that of a device, a directory or a regular file. -/
def KnownTypes (img : FsImage) : Prop :=
  ∀ i < img.entryCount, (img.dentry i).filetype = 0#32 ∨ (img.dentry i).filetype = 1#32 ∨
    (img.dentry i).filetype = 2#32

instance (img : FsImage) : Decidable (KnownTypes img) :=
  inferInstanceAs (Decidable (∀ i < img.entryCount, _))

section

variable {img : FsImage} {descs descs' : DescTable} {filename buf : Buffer} {fd nbytes : Word}
  {entry : Dentry} {i : Fin 8}

/-! ## The search for a free descriptor -/

theorem mem_descriptors : ∀ i : Fin 8, i ∈ ([2, 3, 4, 5, 6, 7] : List (Fin 8)) ↔ 2 ≤ i.val := by
  decide

theorem freeDesc_eq_none_iff :
    freeDesc descs = none ↔ ∀ i : Fin 8, 2 ≤ i.val → IsOpen descs i := by
  simp only [freeDesc, List.find?_eq_none, mem_descriptors, beq_iff_eq, IsOpen, ne_eq]

theorem freeDesc_eq_some (h : freeDesc descs = some i) :
    2 ≤ i.val ∧ ¬ IsOpen descs i ∧ ∀ j : Fin 8, 2 ≤ j.val → j < i → IsOpen descs j := by
  obtain ⟨hfree, n, hn, rfl, hfirst⟩ := List.find?_eq_some_iff_getElem.mp h
  refine ⟨(mem_descriptors _).mp (List.getElem_mem hn), by simpa [IsOpen] using hfree, ?_⟩
  intro j hj hlt
  -- a smaller descriptor stands earlier in the list
  obtain ⟨m, hm, rfl⟩ := List.getElem_of_mem ((mem_descriptors j).mpr hj)
  have hmn : m < n := by
    by_contra hge
    have hsorted : ([2, 3, 4, 5, 6, 7] : List (Fin 8)).SortedLE := by decide
    exact absurd hlt (not_lt.mpr (hsorted.getElem_le_getElem_of_le (not_lt.mp hge)))
  simpa [IsOpen] using hfirst m hmn

/-! ## The four calls -/

/-- A file of a known type is opened with its operations, at position 0. -/
theorem openedDesc_spec (desc : FilesysDesc)
    (htype : entry.filetype = 0#32 ∨ entry.filetype = 1#32 ∨ entry.filetype = 2#32) :
    (openedDesc entry desc).flags = 1#32 ∧ (openedDesc entry desc).filePos = 0#32 ∧
      (openedDesc entry desc).fileOpsTablePtr = some (fileOps entry) := by
  rw [openedDesc, fileOps]
  rcases htype with h | h | h <;> simp [h]

theorem KnownTypes.of_readDentryByName (himg : KnownTypes img)
    (h : img.readDentryByName filename = some entry) :
    entry.filetype = 0#32 ∨ entry.filetype = 1#32 ∨ entry.filetype = 2#32 := by
  rw [FsImage.readDentryByName] at h
  split_ifs at h with hlt
  cases h
  exact himg _ hlt

theorem obeys_openFile (himg : KnownTypes img) : Obeys img descs (.openFile filename) := by
  rw [Obeys, openCall]
  cases hentry : img.readDentryByName filename with
  | none =>
    exact ⟨none, descs, rfl, by simp [hentry], fun _ => rfl, fun _ h => by simp at h,
      fun _ h => by simp at h, fun _ _ => rfl⟩
  | some entry =>
    cases hfree : freeDesc descs with
    | none =>
      have hall := freeDesc_eq_none_iff.mp hfree
      exact ⟨none, descs, rfl, ⟨fun _ => Or.inr hall, fun _ => rfl⟩, fun _ => rfl,
        fun _ h => by simp at h, fun _ h => by simp at h, fun _ _ => rfl⟩
    | some fd =>
      obtain ⟨hflags, hpos, hops⟩ :=
        openedDesc_spec (descs fd) (himg.of_readDentryByName hentry)
      have hlowest := freeDesc_eq_some hfree
      refine ⟨some fd, Function.update descs fd (openedDesc entry (descs fd)), ?_, ?_,
        fun h => by simp at h, ?_, ?_, fun j hj => ?_⟩
      · simp [hops]
      · apply iff_of_false (by simp)
        rintro (h | h)
        · rw [hentry] at h
          cases h
        · exact hlowest.2.1 (h fd hlowest.1)
      · rintro i ⟨⟩
        exact hlowest
      · rintro i ⟨⟩
        rw [Function.update_self, IsOpen, Function.update_self, hflags]
        exact ⟨by decide, hpos, entry, hentry, hops⟩
      · exact Function.update_of_ne (fun h => hj (by rw [h])) _ _

theorem mem_standard : ∀ i : Fin 8, i ∈ ([0, 1] : List (Fin 8)) ↔ i.val < 2 := by decide

theorem obeys_closeFile : Obeys img descs (.closeFile fd) := by
  rcases closeCall_cases fd descs with ⟨hcall, hbad⟩ | ⟨i, hfd, hhigh, hopen, hcall⟩
  · -- the call returns -1, and the number is one that is refused
    refine ⟨fun _ => hcall, fun i hfd hallowed => ?_⟩
    refine absurd (fun j hj => ?_) hallowed
    rcases hbad j hj with hlow | hclosed
    · exact Or.inl ((mem_standard j).mpr hlow)
    · exact Or.inr (not_not.mpr hclosed)
  · -- the call frees a descriptor, which is none of those that are refused
    have hallowed : ¬ RefusesFd descs [0, 1] fd := by
      intro hrefused
      rcases hrefused i hfd with hbarred | hclosed
      · exact absurd ((mem_standard i).mp hbarred) (not_lt.mpr hhigh)
      · exact hclosed hopen
    refine ⟨fun hrefused => absurd hrefused hallowed, fun j hj _ => ?_⟩
    obtain rfl := Option.some.inj (hfd.symm.trans hj)
    exact hcall

theorem obeys_readFile : Obeys img descs (.readFile fd buf nbytes) := by
  refine ⟨fun hrefused => ?_, fun result descs' hcall => readCall_table hcall⟩
  rw [readCall]
  cases hfd : fdIndex fd with
  | none => rfl
  | some i =>
    rcases hrefused i hfd with hbarred | hclosed
    · simp [List.mem_singleton.mp hbarred]
    · simp [not_not.mp hclosed]

/-- `write` leaves the table alone. -/
theorem writeCall_table {result : WriteResult} (h : writeCall fd descs = some (result, descs')) :
    descs' = descs := by
  rw [writeCall] at h
  split at h
  · cases h
    rfl
  · split_ifs at h
    · cases h
      rfl
    · cases h
      rfl
    · split at h <;> cases h <;> rfl

theorem obeys_writeFile : Obeys img descs (.writeFile fd) := by
  refine ⟨fun hrefused => ?_, fun result descs' hcall => writeCall_table hcall⟩
  rw [writeCall]
  cases hfd : fdIndex fd with
  | none => rfl
  | some i =>
    rcases hrefused i hfd with hbarred | hclosed
    · simp [List.mem_singleton.mp hbarred]
    · simp [not_not.mp hclosed]

theorem obeys (himg : KnownTypes img) (descs : DescTable) (call : DescCall) :
    Obeys img descs call := by
  cases call with
  | openFile filename => exact obeys_openFile himg
  | closeFile fd => exact obeys_closeFile
  | readFile fd buf nbytes => exact obeys_readFile
  | writeFile fd => exact obeys_writeFile

/-! ## Standard input and output -/

theorem boundToTerminal_descStep {call : DescCall} (h : BoundToTerminal descs)
    (hstep : descStep img descs call = some descs') : BoundToTerminal descs' := by
  intro i hi
  have hsame : descs' i = descs i := by
    cases call with
    | openFile filename =>
      obtain ⟨⟨opened, _⟩, hcall, rfl⟩ := Option.map_eq_some_iff.mp hstep
      rcases openCall_cases hcall with ⟨-, hdescs⟩ | ⟨fd, entry, -, hfd, -, hdescs⟩
      · exact congrFun hdescs i
      · refine (congrFun hdescs i).trans (Function.update_of_ne ?_ _ _)
        rintro rfl
        omega
    | closeFile fd =>
      cases hstep
      rcases closeCall_cases fd descs with ⟨hcall, -⟩ | ⟨j, -, hhigh, -, hcall⟩
      · rw [hcall]
      · rw [hcall]
        refine Function.update_of_ne ?_ _ _
        rintro rfl
        exact absurd hi (not_lt.mpr hhigh)
    | readFile fd buf nbytes =>
      obtain ⟨⟨result, _⟩, hcall, rfl⟩ := Option.map_eq_some_iff.mp hstep
      by_cases hfd : fdIndex fd = some i
      · -- standard input is read by the terminal, and standard output not at all
        rw [readCall] at hcall
        simp only [hfd, h i hi, terminalDesc] at hcall
        split_ifs at hcall
        · cases hcall
          rfl
        · rename_i hflags
          exact absurd hflags (by decide)
        · cases hcall
          rfl
      · rcases readCall_table hcall with rfl | ⟨j, pos, hj, rfl⟩
        · rfl
        · exact Function.update_of_ne (fun heq => hfd (by rw [heq, hj])) _ _
    | writeFile fd =>
      obtain ⟨⟨result, _⟩, hcall, rfl⟩ := Option.map_eq_some_iff.mp hstep
      rw [writeCall_table hcall]
  rw [hsame, h i hi]

end

/-- In every run of opens, closes, reads and writes over the table of a new process, every call does
what it must, and 0 and 1 stay the terminal. -/
theorem along_obeys {img : FsImage} (himg : KnownTypes img) (pcb : Pcb) (i : Pid)
    (parent : Option Pid) (cmd : Command) (calls : List DescCall) :
    Along (descStep img) (Obeys img) (pcb.init i parent cmd).filesysDescArray calls ∧
      Always (descStep img) BoundToTerminal (pcb.init i parent cmd).filesysDescArray calls := by
  have hall : Along (descStep img) (fun _ _ => True) (pcb.init i parent cmd).filesysDescArray
      calls :=
    along_of_forall (P := fun _ => True) (fun _ _ => trivial) _
  have hstart : BoundToTerminal (pcb.init i parent cmd).filesysDescArray := fun j hj => if_pos hj
  exact ⟨hall.mono fun descs call _ => obeys himg descs call,
    always_of_invariant (fun _ _ _ h _ hstep => boundToTerminal_descStep h hstep) hstart hall⟩

/-- A program opens a file, reads it, closes it and opens it again, with refused calls between. -/
theorem along_obeys_sample :
    Along (descStep sampleImage) (Obeys sampleImage)
        ((zeroRam.pcbs 3).init 3 (some 0)
          ⟨4, 0, fun _ => 0#8, fun _ => 0#8, by decide, by decide⟩).filesysDescArray
        [.openFile (commandLine "note"), .readFile 2#32 (fun _ => 0#8) 3#32, .writeFile 2#32,
          .closeFile 1#32, .closeFile 2#32, .readFile 2#32 (fun _ => 0#8) 3#32,
          .closeFile (-1#32), .openFile (commandLine "note")] ∧
      Always (descStep sampleImage) BoundToTerminal
        ((zeroRam.pcbs 3).init 3 (some 0)
          ⟨4, 0, fun _ => 0#8, fun _ => 0#8, by decide, by decide⟩).filesysDescArray
        [.openFile (commandLine "note"), .readFile 2#32 (fun _ => 0#8) 3#32, .writeFile 2#32,
          .closeFile 1#32, .closeFile 2#32, .readFile 2#32 (fun _ => 0#8) 3#32,
          .closeFile (-1#32), .openFile (commandLine "note")] :=
  along_obeys (by decide +kernel) _ _ _ _ _

end Ece391
