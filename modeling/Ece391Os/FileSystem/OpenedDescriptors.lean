import Ece391Os.FileSystem.DescriptorTable

/-!
# Dead descriptors

`open` fills the slot it has found by the type of the file, in a `switch` without a default, and
then calls the slot's own `open` function and returns the slot, filled or not.

* `typeOps` is the operations table of a file type; there is one for three types.
* `OpenState` adds to the table of a process which descriptors have been handed out, and which
  operations table the call that has handed them out has assigned.
* `OpensLive` and `Fresh` are what a call must do: hand out a descriptor in use, that has not been
  handed out before, and call only through pointers that have been assigned for it.
* `callsLive_and_usable_iff`: in every run of every process all calls do, and all descriptors that
  are handed out are usable, exactly when no file of another type is opened while a descriptor is
  free. `not_opensLive_unknown_type` opens such a file.
-/

namespace Ece391

open Transition

/-- The operations table of a file type. -/
def typeOps (filetype : Word) : Option OpsTable :=
  if filetype = 0#32 then some .rtc
  else if filetype = 1#32 ∨ filetype = 2#32 then some .fileSystem
  else none

/-- The table of a process; the descriptors that a call of `open`, or `execute`, has handed out and
`close` has not taken back; and the operations table that was assigned then, if any was. -/
structure OpenState where
  descs : DescTable
  handedOut : Fin 8 → Bool
  assigned : Fin 8 → Option OpsTable

namespace OpenState

/-- The state of a process that `execute` launches in a PCB. -/
def launched (pcb : Pcb) (i : Pid) (parent : Option Pid) (cmd : Command) : OpenState where
  descs := (pcb.init i parent cmd).filesysDescArray
  handedOut fd := fd.val < 2
  assigned fd := if fd.val < 2 then some .terminal else none

variable (s : OpenState)

/-- A call of `open` has handed out a descriptor. -/
def handOut (fd : Fin 8) (ops : Option OpsTable) : OpenState :=
  { s with
    handedOut := Function.update s.handedOut fd true
    assigned := Function.update s.assigned fd ops }

/-- A call of `close` has taken back a descriptor. -/
def takeBack (fd : Fin 8) : OpenState :=
  { s with handedOut := Function.update s.handedOut fd false }

end OpenState

/-- The state after a call. -/
def openStep (img : FsImage) (s : OpenState) : DescCall → Option OpenState
  | .openFile filename =>
    (openCall img filename s.descs).map fun (opened, descs) =>
      match opened with
      | none => { s with descs }
      | some fd =>
        { s with descs }.handOut fd
          ((img.readDentryByName filename).bind fun entry => typeOps entry.filetype)
  | .closeFile fd =>
    let (ret, descs) := closeCall fd s.descs
    match fdIndex fd with
    | none => some { s with descs }
    | some i => some (if ret = 0#32 then { s with descs }.takeBack i else { s with descs })
  | .readFile fd buf nbytes =>
    (readCall img fd buf nbytes s.descs).map fun (_, descs) => { s with descs }
  | .writeFile fd => (writeCall fd s.descs).map fun (_, descs) => { s with descs }

/-! ## What the calls must do -/

/-- `open` returns -1 and leaves the table alone, or returns a free descriptor that has not been
handed out, and that is now in use with the operations of the file's type. -/
def OpensLive (img : FsImage) (filename : Buffer) (s : OpenState) : Prop :=
  openCall img filename s.descs = some (none, s.descs) ∨
    ∃ fd entry ops descs, openCall img filename s.descs = some (some fd, descs) ∧
      img.readDentryByName filename = some entry ∧ typeOps entry.filetype = some ops ∧
      ¬ IsOpen s.descs fd ∧ s.handedOut fd = false ∧ IsOpen descs fd ∧
      (descs fd).fileOpsTablePtr = some ops

/-- A call through the pointer of a descriptor finds the operations table that was assigned when the
descriptor was handed out. -/
def Fresh (s : OpenState) (i : Fin 8) : Prop :=
  IsOpen s.descs i → (s.assigned i).isSome ∧ (s.descs i).fileOpsTablePtr = s.assigned i

/-- What a call must do. `read` and `write` call through the pointer of the descriptor they are
given if its flag is set; `open` calls through the pointer of the one that it hands out. -/
def CallsLive (img : FsImage) (s : OpenState) : DescCall → Prop
  | .openFile filename => OpensLive img filename s
  | .closeFile _ => True
  | .readFile fd _ _ | .writeFile fd => ∀ i, fdIndex fd = some i → Fresh s i

/-- The descriptors that have been handed out are in use. -/
def Usable (s : OpenState) : Prop :=
  ∀ i, s.handedOut i = true → IsOpen s.descs i ∧
    ∃ ops, s.assigned i = some ops ∧ (s.descs i).fileOpsTablePtr = some ops

/-- A file of another type than 0, 1 and 2 is not opened while a descriptor is free. -/
def OpensKnown (img : FsImage) (s : OpenState) : DescCall → Prop
  | .openFile filename => ∀ entry, img.readDentryByName filename = some entry →
      (∃ i : Fin 8, 2 ≤ i.val ∧ ¬ IsOpen s.descs i) →
      entry.filetype = 0#32 ∨ entry.filetype = 1#32 ∨ entry.filetype = 2#32
  | .closeFile _ | .readFile _ _ _ | .writeFile _ => True

section

variable {img : FsImage} {s s' : OpenState} {filename : Buffer} {entry : Dentry} {fd : Fin 8}

/-! ## One call -/

theorem openCall_of_free (hentry : img.readDentryByName filename = some entry)
    (hfree : freeDesc s.descs = some fd) :
    openCall img filename s.descs = (openedDesc entry (s.descs fd)).fileOpsTablePtr.map fun _ =>
      (some fd, Function.update s.descs fd (openedDesc entry (s.descs fd))) := by
  rw [openCall, hentry]
  simp only [hfree, Function.update_self]

/-- The types that have operations. -/
theorem typeOps_eq_none_iff {filetype : Word} :
    typeOps filetype = none ↔ ¬ (filetype = 0#32 ∨ filetype = 1#32 ∨ filetype = 2#32) := by
  rw [typeOps]
  split_ifs with h0 h12
  · simp [h0]
  · simp [h12]
  · simp [h0, h12]

/-- The slot of a file with operations. -/
theorem openedDesc_of_typeOps {ops : OpsTable} (h : typeOps entry.filetype = some ops)
    (desc : FilesysDesc) : (openedDesc entry desc).flags = 1#32 ∧
      (openedDesc entry desc).fileOpsTablePtr = some ops := by
  have htype : entry.filetype = 0#32 ∨ entry.filetype = 1#32 ∨ entry.filetype = 2#32 := by
    by_contra hother
    rw [typeOps_eq_none_iff.mpr hother] at h
    cases h
  obtain ⟨hflags, -, hptr⟩ := openedDesc_spec desc htype
  refine ⟨hflags, hptr.trans ?_⟩
  rw [← h, typeOps, fileOps]
  rcases htype with h | h | h <;> simp [h]

/-- The slot of another file is left as it was. -/
theorem openedDesc_of_typeOps_none (h : typeOps entry.filetype = none) (desc : FilesysDesc) :
    openedDesc entry desc = desc := by
  obtain ⟨h0, h12⟩ := not_or.mp (typeOps_eq_none_iff.mp h)
  obtain ⟨h1, h2⟩ := not_or.mp h12
  rw [openedDesc, if_neg h0, if_neg h1, if_neg h2]

/-- The invariant: the descriptors that have been handed out are those in use. -/
def Matches (s : OpenState) : Prop := Usable s ∧ ∀ i, IsOpen s.descs i → s.handedOut i = true

namespace Matches

theorem launched (pcb : Pcb) (i : Pid) (parent : Option Pid) (cmd : Command) :
    Matches (.launched pcb i parent cmd) := by
  refine ⟨fun fd hfd => ?_, fun fd hopen => ?_⟩
  · -- `execute` has filled descriptors 0 and 1
    have hlow : fd.val < 2 := by simpa [OpenState.launched] using hfd
    have hdesc : (OpenState.launched pcb i parent cmd).descs fd = terminalDesc := if_pos hlow
    rw [IsOpen, hdesc]
    exact ⟨by decide, .terminal, if_pos hlow, rfl⟩
  · -- all others have the flag 0, whatever the PCB has held
    have hlow : fd.val < 2 := by
      by_contra hhigh
      apply hopen
      rw [OpenState.launched, Pcb.init]
      simp only [initDescs, if_neg hhigh]
    exact decide_eq_true hlow

theorem fresh (h : Matches s) (i : Fin 8) : Fresh s i := by
  intro hopen
  -- a descriptor in use has been handed out, with a table
  obtain ⟨-, ops, hassigned, hptr⟩ := h.1 i (h.2 i hopen)
  rw [hassigned]
  exact ⟨rfl, hptr⟩

/-- A change of positions only. -/
theorem congr (h : Matches s) {descs : DescTable}
    (hflags : ∀ i, (descs i).flags = (s.descs i).flags)
    (hptr : ∀ i, (descs i).fileOpsTablePtr = (s.descs i).fileOpsTablePtr) :
    Matches { s with descs } := by
  simp only [Matches, Usable, IsOpen, hflags, hptr]
  exact h

/-- A file with operations is opened in a free slot. -/
theorem handOut (h : Matches s) {desc : FilesysDesc} {ops : OpsTable} (hflags : desc.flags ≠ 0#32)
    (hptr : desc.fileOpsTablePtr = some ops) :
    Matches ({ s with descs := Function.update s.descs fd desc }.handOut fd (some ops)) := by
  constructor
  · intro i hi
    by_cases hfd : i = fd
    · subst hfd
      simp only [IsOpen, OpenState.handOut, Function.update_self]
      exact ⟨hflags, ops, rfl, hptr⟩
    · simp only [IsOpen, OpenState.handOut, Function.update_of_ne hfd] at hi ⊢
      exact h.1 i hi
  · intro i hi
    by_cases hfd : i = fd
    · subst hfd
      exact Function.update_self _ _ _
    · simp only [IsOpen, OpenState.handOut, Function.update_of_ne hfd] at hi ⊢
      exact h.2 i hi

/-- A slot is freed. -/
theorem takeBack (h : Matches s) :
    Matches ({ s with
      descs := Function.update s.descs fd { s.descs fd with flags := 0#32 } }.takeBack fd) := by
  constructor
  · intro i hi
    by_cases hfd : i = fd
    · subst hfd
      simp [OpenState.takeBack] at hi
    · simp only [IsOpen, OpenState.takeBack, Function.update_of_ne hfd] at hi ⊢
      exact h.1 i hi
  · intro i hi
    by_cases hfd : i = fd
    · subst hfd
      simp [IsOpen, OpenState.takeBack] at hi
    · simp only [IsOpen, OpenState.takeBack, Function.update_of_ne hfd] at hi ⊢
      exact h.2 i hi

/-- A free descriptor has not been handed out. -/
theorem handedOut_of_free (h : Matches s) (hfd : ¬ IsOpen s.descs fd) : s.handedOut fd = false := by
  by_contra hout
  exact hfd (h.1 fd (Bool.not_eq_false _ ▸ hout)).1

/-- `open` does what it must exactly for a file of a known type, if there is a free descriptor. -/
theorem opensLive_iff (h : Matches s) :
    OpensLive img filename s ↔ OpensKnown img s (.openFile filename) := by
  cases hentry : img.readDentryByName filename with
  | none =>
    -- no such file
    refine iff_of_true (Or.inl ?_) fun entry hsome => ?_
    · rw [openCall, hentry]
    · rw [hentry] at hsome
      cases hsome
  | some entry =>
    cases hfree : freeDesc s.descs with
    | none =>
      -- no free descriptor
      refine iff_of_true (Or.inl ?_) fun _ _ hsome => ?_
      · rw [openCall, hentry]
        simp only [hfree]
      · obtain ⟨i, hi, hclosed⟩ := hsome
        exact absurd (freeDesc_eq_none_iff.mp hfree i hi) hclosed
    | some fd =>
      obtain ⟨hlow, hclosed, -⟩ := freeDesc_eq_some hfree
      have hcall := openCall_of_free hentry hfree
      cases hops : typeOps entry.filetype with
      | some ops =>
        -- a file of a known type: the slot is filled, and the pointer is its own
        obtain ⟨hflags, hptr⟩ := openedDesc_of_typeOps hops (s.descs fd)
        rw [hptr, Option.map_some] at hcall
        refine iff_of_true (Or.inr ⟨fd, entry, ops, _, hcall, hentry, hops, hclosed,
          h.handedOut_of_free hclosed, ?_, ?_⟩) fun entry' hentry' _ => ?_
        · rw [IsOpen, Function.update_self, hflags]
          decide
        · rw [Function.update_self]
          exact hptr
        · obtain rfl := Option.some.inj (hentry.symm.trans hentry')
          by_contra hother
          rw [typeOps_eq_none_iff.mpr hother] at hops
          cases hops
      | none =>
        -- the slot is left as it was, and its pointer is called
        refine iff_of_false ?_ fun hknown => ?_
        · rw [openedDesc_of_typeOps_none hops] at hcall
          rintro (hnone | ⟨fd', entry', ops, descs, -, hentry', hops', -⟩)
          · rw [hnone] at hcall
            obtain ⟨-, -, hpair⟩ := Option.map_eq_some_iff.mp hcall.symm
            cases hpair
          · obtain rfl := Option.some.inj (hentry.symm.trans hentry')
            rw [hops] at hops'
            cases hops'
        · exact typeOps_eq_none_iff.mp hops (hknown entry hentry ⟨fd, hlow, hclosed⟩)

/-- An open of a file of a known type. -/
theorem openFile (h : Matches s) (hknown : OpensKnown img s (.openFile filename))
    (hstep : openStep img s (.openFile filename) = some s') : Matches s' := by
  obtain ⟨⟨opened, descs⟩, hcall, rfl⟩ := Option.map_eq_some_iff.mp hstep
  rcases h.opensLive_iff.mpr hknown with hnone |
    ⟨fd, entry, ops, descs', hcall', hentry, hops, -, -, -⟩
  · obtain ⟨rfl, rfl⟩ := Prod.mk.inj (Option.some.inj (hcall.symm.trans hnone))
    exact h
  · obtain ⟨rfl, rfl⟩ := Prod.mk.inj (Option.some.inj (hcall.symm.trans hcall'))
    cases hfree : freeDesc s.descs with
    | none =>
      rw [openCall, hentry] at hcall
      simp [hfree] at hcall
    | some fd' =>
      obtain ⟨hflags, hptr⟩ := openedDesc_of_typeOps hops (s.descs fd')
      rw [openCall_of_free hentry hfree, hptr, Option.map_some] at hcall
      cases hcall
      simp only [hentry, Option.bind_some, hops]
      exact h.handOut (by rw [hflags]; decide) hptr

/-- A close: a descriptor in use becomes free. -/
theorem closeFile (h : Matches s) {fd : Word} (hstep : openStep img s (.closeFile fd) = some s') :
    Matches s' := by
  have hneg : (-1#32 : Word) ≠ 0#32 := by decide
  rw [openStep] at hstep
  rcases closeCall_cases fd s.descs with ⟨hcall, -⟩ | ⟨i, hfd, -, -, hcall⟩
  · rw [hcall] at hstep
    cases hfd : fdIndex fd with
    | none =>
      simp only [hfd] at hstep
      -- a call that returns -1 takes nothing back
      cases hstep
      exact h
    | some i =>
      simp only [hfd, if_neg hneg] at hstep
      cases hstep
      exact h
  · simp only [hcall, hfd, if_true] at hstep
    cases hstep
    exact h.takeBack

/-- A call keeps the invariant. -/
theorem step (h : Matches s) {call : DescCall} (hknown : OpensKnown img s call)
    (hstep : openStep img s call = some s') : Matches s' := by
  cases call with
  | openFile filename => exact h.openFile hknown hstep
  | closeFile fd => exact h.closeFile hstep
  | readFile fd buf nbytes =>
    obtain ⟨⟨result, descs⟩, hcall, rfl⟩ := Option.map_eq_some_iff.mp hstep
    refine h.congr (fun j => ?_) fun j => ?_
    · obtain ⟨pos, hpos⟩ := readCall_kept hcall j
      rw [hpos]
    · obtain ⟨pos, hpos⟩ := readCall_kept hcall j
      rw [hpos]
  | writeFile fd =>
    obtain ⟨⟨result, descs⟩, hcall, rfl⟩ := Option.map_eq_some_iff.mp hstep
    rw [writeCall_table hcall]
    exact h

/-- A call does what it must exactly when it opens no file of an unknown type. -/
theorem callsLive_iff (h : Matches s) (call : DescCall) :
    CallsLive img s call ↔ OpensKnown img s call := by
  cases call with
  | openFile filename => exact h.opensLive_iff
  | closeFile fd => exact Iff.rfl
  | readFile fd buf nbytes => exact iff_of_true (fun i _ => h.fresh i) trivial
  | writeFile fd => exact iff_of_true (fun i _ => h.fresh i) trivial

end Matches

end

/-- In every run of opens, closes, reads and writes of a process, over whatever its PCB has held
before, all calls do what they must and all descriptors that have been handed out are usable,
exactly when no file of another type than 0, 1 and 2 is opened while a descriptor is free. -/
theorem callsLive_and_usable_iff (img : FsImage) (pcb : Pcb) (i : Pid) (parent : Option Pid)
    (cmd : Command) (calls : List DescCall) :
    (Along (openStep img) (CallsLive img) (.launched pcb i parent cmd) calls ∧
        Always (openStep img) Usable (.launched pcb i parent cmd) calls) ↔
      Along (openStep img) (OpensKnown img) (.launched pcb i parent cmd) calls := by
  have hstart := Matches.launched pcb i parent cmd
  have hiff : Along (openStep img) (CallsLive img) (.launched pcb i parent cmd) calls ↔
      Along (openStep img) (OpensKnown img) (.launched pcb i parent cmd) calls :=
    along_iff_of_invariant (R := fun _ => True) (fun _ _ _ h _ hknown hstep => h.step hknown hstep)
      (fun _ call h _ => h.callsLive_iff call) hstart fun _ _ => trivial
  constructor
  · rintro ⟨hlive, -⟩
    exact hiff.mp hlive
  · intro hknown
    -- the usable descriptors are a part of the invariant
    refine ⟨hiff.mpr hknown, fun fs hfs s hs => ?_⟩
    exact (always_of_invariant (fun _ _ _ h hknown hstep => Matches.step h hknown hstep) hstart
      hknown fs hfs s hs).1

/-- An image with a regular file and a file of type 3. -/
def oddImage : FsImage where
  filesystemBase := 0#32
  mem := memoryOf
    [(0, [2#8]), (64, ascii "note"), (96, [2#8]), (128, ascii "odd"), (160, [3#8])]

/-- A process opens and closes the regular file, and opens the other one: `open` calls through the
pointer that the first file has left, and returns a descriptor that is not in use. -/
theorem not_opensLive_unknown_type :
    ∃ s descs, exec (openStep oddImage)
        (.launched (zeroRam.pcbs 3) 3 (some 0)
          ⟨4, 0, fun _ => 0#8, fun _ => 0#8, by decide, by decide⟩)
        [.openFile (commandLine "note"), .closeFile 2#32] = some s ∧
      openCall oddImage (commandLine "odd") s.descs = some (some 2, descs) ∧
      ¬ IsOpen descs 2 ∧ ¬ OpensLive oddImage (commandLine "odd") s := by
  have hrun : (exec (openStep oddImage)
      (.launched (zeroRam.pcbs 3) 3 (some 0)
        ⟨4, 0, fun _ => 0#8, fun _ => 0#8, by decide, by decide⟩)
      [.openFile (commandLine "note"), .closeFile 2#32]).any fun s =>
        (openCall oddImage (commandLine "odd") s.descs).any fun x =>
          decide (x.1 = some 2 ∧ (x.2 2).flags = 0#32) := by
    decide +kernel
  simp only [Option.any_eq_true, decide_eq_true_eq] at hrun
  obtain ⟨s, hs, ⟨opened, descs⟩, hcall, rfl, hflags⟩ := hrun
  -- the descriptor is returned, and its flag is 0
  have hdead : ¬ IsOpen descs 2 := fun hopen => hopen hflags
  refine ⟨s, descs, hs, hcall, hdead, ?_⟩
  rintro (hnone | ⟨fd, entry, ops, descs', hcall', -, -, -, -, hopen, -⟩)
  · rw [hnone] at hcall
    cases hcall
  · rw [hcall] at hcall'
    cases hcall'
    exact hdead hopen

end Ece391
