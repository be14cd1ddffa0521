import Ece391Os.Kernel.SystemCall
import Ece391Os.Lib.BitField
import Ece391Os.Lib.Descriptor

/-!
# Descriptor tables

The part of `entry` that fills the interrupt descriptor table and the descriptors of the LDT and the
TSS, as assignments to the bit fields of `x86_desc.h`, against what the processor reads in them.

* `setUpIdt` are the two loops of `entry` and its assignments to entry 128.
* `ofDescriptor_setUpIdt`: the processor finds the handlers of `exception_table` and `int_table` and
  `sys_call_handler`, whatever was in the table before.
* `raise_handlers`: a device interrupt and a system call get where `serve` and `int80` start.
* `raise_ring3`: of all vectors that a program can name, 128 is the only one that does not fault.
* `ofDescriptor_ldtDesc` and `ofDescriptor_tssDesc`: the processor reads the address and the size
  that the two segment descriptors are built from, and no bit of the uninitialised variables they
  are built in.
-/

namespace Ece391

open I386

/-! ## The interrupt descriptor table -/

/-- `idt_desc_t` -/
abbrev IdtDesc := BitVec 64

namespace IdtDesc

abbrev offset1500 : BitField 64 := { offset := 0, width := 16 }
abbrev segSelector : BitField 64 := { offset := 16, width := 16 }
abbrev reserved4 : BitField 64 := { offset := 32, width := 8 }
abbrev reserved3 : BitField 64 := { offset := 40, width := 1 }
abbrev reserved2 : BitField 64 := { offset := 41, width := 1 }
abbrev reserved1 : BitField 64 := { offset := 42, width := 1 }
abbrev size : BitField 64 := { offset := 43, width := 1 }
abbrev reserved0 : BitField 64 := { offset := 44, width := 1 }
abbrev dpl : BitField 64 := { offset := 45, width := 2 }
abbrev present : BitField 64 := { offset := 47, width := 1 }
abbrev offset3116 : BitField 64 := { offset := 48, width := 16 }

/-- `SET_IDT_ENTRY` -/
def setIdtEntry (handler : Word) (d : IdtDesc) : IdtDesc :=
  let d := offset3116.set (((handler &&& 0xFFFF0000#32) >>> 16).setWidth 16) d
  offset1500.set ((handler &&& 0xFFFF#32).setWidth 16) d

/-- The assignments to an entry. -/
def fill (gateKind : BitVec 1) (level : BitVec 2) (handler : Word) (d : IdtDesc) : IdtDesc :=
  let d := segSelector.set kernelCs d
  let d := reserved4.set 0#8 d
  let d := reserved3.set gateKind d
  let d := reserved2.set 1#1 d
  let d := reserved1.set 1#1 d
  let d := size.set 1#1 d
  let d := reserved0.set 0#1 d
  let d := dpl.set level d
  let d := present.set 1#1 d
  setIdtEntry handler d

end IdtDesc

/-- `exception_table`, `int_table`, and where the linker has put `sys_call_handler`. -/
structure Handlers where
  exceptionTable : Fin 20 → Word
  intTable : Fin 16 → Word
  sysCallHandler : Word

local instance exceptionTable_neZero : NeZero 20 := ⟨by decide⟩

local instance intTable_neZero : NeZero 16 := ⟨by decide⟩

/-- A loop of `entry`: `n` entries from `start` on get interrupt gates. -/
def fillIdt (start : ℕ) (handler : ℕ → Word) : ℕ → (ℕ → IdtDesc) → ℕ → IdtDesc
  | 0, idt => idt
  | n + 1, idt =>
    let idt := fillIdt start handler n idt
    Function.update idt (start + n) (IdtDesc.fill 0#1 0#2 (handler n) (idt (start + n)))

/-- `entry` between the multiboot structure and `clear`, without the segment descriptors. -/
def setUpIdt (handlers : Handlers) (idt : ℕ → IdtDesc) : ℕ → IdtDesc :=
  let idt := fillIdt 0 (fun i => handlers.exceptionTable (Fin.ofNat 20 i)) 20 idt
  let idt := fillIdt 32 (fun i => handlers.intTable (Fin.ofNat 16 i)) 16 idt
  Function.update idt 128 (IdtDesc.fill 1#1 3#2 handlers.sysCallHandler (idt 128))

/-- The gate that a vector is to have. -/
def Handlers.gate (handlers : Handlers) (vector : ℕ) : Option Gate :=
  if vector < 20 then
    some
      { kind := .interrupt, present := true, dpl := 0#2, selector := kernelCs
        offset := handlers.exceptionTable (Fin.ofNat 20 vector) }
  else if 32 ≤ vector ∧ vector < 48 then
    some
      { kind := .interrupt, present := true, dpl := 0#2, selector := kernelCs
        offset := handlers.intTable (Fin.ofNat 16 (vector - 32)) }
  else if vector = 128 then
    some
      { kind := .trap, present := true, dpl := 3#2, selector := kernelCs
        offset := handlers.sysCallHandler }
  else none

section

variable {handlers : Handlers} {idt : ℕ → IdtDesc} {vector n start : ℕ} {c : Cpu}

/-- The values of the fields of an entry, and the address in its two halves. -/
theorem get_fill (gateKind : BitVec 1) (level : BitVec 2) (handler : Word) (d : IdtDesc) :
    IdtDesc.segSelector.get (IdtDesc.fill gateKind level handler d) = kernelCs ∧
      IdtDesc.reserved3.get (IdtDesc.fill gateKind level handler d) = gateKind ∧
      IdtDesc.reserved2.get (IdtDesc.fill gateKind level handler d) = 1#1 ∧
      IdtDesc.reserved1.get (IdtDesc.fill gateKind level handler d) = 1#1 ∧
      IdtDesc.size.get (IdtDesc.fill gateKind level handler d) = 1#1 ∧
      IdtDesc.reserved0.get (IdtDesc.fill gateKind level handler d) = 0#1 ∧
      IdtDesc.dpl.get (IdtDesc.fill gateKind level handler d) = level ∧
      IdtDesc.present.get (IdtDesc.fill gateKind level handler d) = 1#1 ∧
      IdtDesc.offset3116.get (IdtDesc.fill gateKind level handler d) =
        handler.extractLsb' 16 16 ∧
      IdtDesc.offset1500.get (IdtDesc.fill gateKind level handler d) =
        handler.extractLsb' 0 16 := by
  have hhigh : ((handler &&& 0xFFFF0000#32) >>> 16).setWidth 16 = handler.extractLsb' 16 16 :=
    BitField.setWidth_ushiftRight_and rfl
  have hlow : (handler &&& 0xFFFF#32).setWidth 16 = handler.extractLsb' 0 16 := by
    rw [← BitField.setWidth_ushiftRight_and (m := 0xFFFF#32) rfl, BitVec.ushiftRight_zero]
  simp (disch := decide) only [IdtDesc.fill, IdtDesc.setIdtEntry, BitField.get_set,
    BitField.get_set_of_disjoint, hhigh, hlow, and_self]

/-- The processor reads what the assignments say. -/
theorem ofDescriptor_fill (kind : GateKind) (level : BitVec 2) (handler : Word) (d : IdtDesc) :
    Gate.ofDescriptor (IdtDesc.fill (if kind = .trap then 1#1 else 0#1) level handler d) =
      some
        { kind, present := true, dpl := level, selector := kernelCs, offset := handler } := by
  obtain ⟨hselector, h3, h2, h1, hsize, h0, hlevel, hpresent, hhigh, hlow⟩ :=
    get_fill (if kind = .trap then 1#1 else 0#1) level handler d
  generalize IdtDesc.fill (if kind = .trap then 1#1 else 0#1) level handler d = word at *
  simp only [BitField.get] at *
  -- the type is five fields in a row
  have htype : word.extractLsb' 40 5 =
      0#1 ++ (1#1 ++ (1#1 ++ (1#1 ++ (if kind = .trap then 1#1 else 0#1)))) :=
    calc
      word.extractLsb' 40 5 = word.extractLsb' 44 1 ++ (word.extractLsb' 43 1 ++
          (word.extractLsb' 42 1 ++ (word.extractLsb' 41 1 ++ word.extractLsb' 40 1))) := by
        rw [BitVec.extractLsb'_append_extractLsb'_eq_extractLsb' (by rfl),
          BitVec.extractLsb'_append_extractLsb'_eq_extractLsb' (by rfl),
          BitVec.extractLsb'_append_extractLsb'_eq_extractLsb' (by rfl),
          BitVec.extractLsb'_append_extractLsb'_eq_extractLsb' (by rfl)]
      _ = _ := by rw [h0, hsize, h1, h2, h3]
  have hkind : GateKind.ofType (word.extractLsb' 40 5) = some kind := by
    rw [htype]
    cases kind <;> rfl
  have hpresent' : word.getLsbD 47 = true := by
    have hbit := congrArg (BitVec.getLsbD · 0) hpresent
    simpa using hbit
  have hoffset : handler.extractLsb' 16 16 ++ handler.extractLsb' 0 16 = handler := by
    rw [BitVec.extractLsb'_append_extractLsb'_eq_extractLsb' (by rfl)]
    exact BitVec.extractLsb'_eq_self
  rw [Gate.ofDescriptor, hkind, hselector, hlevel, hhigh, hlow, hoffset, hpresent']
  rfl

theorem fillIdt_apply (handler : ℕ → Word) : fillIdt start handler n idt vector =
    if start ≤ vector ∧ vector < start + n then
      IdtDesc.fill 0#1 0#2 (handler (vector - start)) (idt vector)
    else idt vector := by
  induction n with
  | zero => rw [fillIdt, if_neg (by omega)]
  | succ n ih =>
    rw [fillIdt]
    by_cases hlast : vector = start + n
    · subst hlast
      rw [Function.update_self, ih, if_neg (by omega), if_pos (by omega), Nat.add_sub_cancel_left]
    · have hrange : (start ≤ vector ∧ vector < start + (n + 1)) ↔
          start ≤ vector ∧ vector < start + n := by omega
      rw [Function.update_of_ne hlast, ih, if_congr hrange rfl rfl]

/-- The processor finds the gates of the handlers in the table, and the other entries are as they
were. -/
theorem ofDescriptor_setUpIdt (handlers : Handlers) (idt : ℕ → IdtDesc) (vector : ℕ) :
    match handlers.gate vector with
    | some gate => Gate.ofDescriptor (setUpIdt handlers idt vector) = some gate
    | none => setUpIdt handlers idt vector = idt vector := by
  unfold Handlers.gate setUpIdt
  by_cases hcall : vector = 128
  · subst hcall
    rw [if_neg (by decide), if_neg (by decide), if_pos rfl, Function.update_self]
    exact ofDescriptor_fill .trap 3#2 _ _
  rw [Function.update_of_ne hcall, fillIdt_apply, fillIdt_apply, Nat.zero_add]
  by_cases hexception : vector < 20
  · rw [if_pos hexception, if_neg (by omega), if_pos ⟨vector.zero_le, hexception⟩]
    exact ofDescriptor_fill .interrupt 0#2 _ _
  have hrange : ¬ (0 ≤ vector ∧ vector < 20) := by omega
  by_cases hirq : 32 ≤ vector ∧ vector < 48
  · rw [if_neg hexception, if_pos hirq, if_pos hirq]
    exact ofDescriptor_fill .interrupt 0#2 _ _
  · rw [if_neg hexception, if_neg hirq, if_neg hcall, if_neg hirq, if_neg hrange]

/-- The processor finds the gate that a vector is to have. -/
theorem ofDescriptor_of_gate {gate : Gate} (h : handlers.gate vector = some gate) :
    Gate.ofDescriptor (setUpIdt handlers idt vector) = some gate := by
  have hspec := ofDescriptor_setUpIdt handlers idt vector
  rwa [h] at hspec

/-! ## Interrupts -/

/-- An interrupt from a device reaches its handler, in every state, with interrupts off. -/
theorem raise_device (irq : Fin 16) (tss : Tss) (c : Cpu) :
    c.raise (setUpIdt handlers idt) tss.ss0 tss.esp0 .hardware (32 + irq.val) =
      .ok (c.interrupt tss.ss0 tss.esp0 kernelCs (handlers.intTable irq)) := by
  have hirq := irq.isLt
  have hindex : Fin.ofNat 16 (32 + irq.val - 32) = irq := by
    rw [Nat.add_sub_cancel_left]
    exact Fin.ofNat_val_eq_self irq
  have hgate : handlers.gate (32 + irq.val) = some
      { kind := .interrupt, present := true, dpl := 0#2, selector := kernelCs
        offset := handlers.intTable irq } := by
    rw [Handlers.gate, if_neg (by omega), if_pos (by omega), hindex]
  rw [Cpu.raise, ofDescriptor_of_gate hgate]
  rfl

/-- `int $0x80` may be used in every ring, and leaves the interrupt flag. -/
theorem raise_sysCall (tss : Tss) (c : Cpu) :
    c.raise (setUpIdt handlers idt) tss.ss0 tss.esp0 .software 128 =
      .ok (c.trap tss.ss0 tss.esp0 kernelCs handlers.sysCallHandler) := by
  have hgate : handlers.gate 128 = some
      { kind := .trap, present := true, dpl := 3#2, selector := kernelCs
        offset := handlers.sysCallHandler } := rfl
  have hlevel : ¬ 3#2 < Cpu.rpl c.cs := by
    generalize Cpu.rpl c.cs = level
    revert level
    decide
  rw [Cpu.raise, ofDescriptor_of_gate hgate]
  dsimp only
  rw [if_neg fun h => hlevel h.2]
  rfl

/-- An `int` of a program: vector 128 enters `sys_call_handler`, which may be interrupted if the
program may. Every other vector faults, if `entry` found an empty table. -/
theorem raise_ring3 (hempty : ∀ v, idt v = 0#64) (tss : Tss) (hring : Cpu.rpl c.cs = 3#2)
    (vector : ℕ) :
    c.raise (setUpIdt handlers idt) tss.ss0 tss.esp0 .software vector =
      if vector = 128 then .ok (c.trap tss.ss0 tss.esp0 kernelCs handlers.sysCallHandler)
      else .error .generalProtection := by
  by_cases hcall : vector = 128
  · rw [if_pos hcall, hcall, raise_sysCall]
  rw [if_neg hcall, Cpu.raise]
  cases hgate : handlers.gate vector with
  | none =>
    have hspec := ofDescriptor_setUpIdt handlers idt vector
    rw [hgate] at hspec
    rw [hspec, hempty]
    rfl
  | some gate =>
    rw [ofDescriptor_of_gate hgate, hring]
    unfold Handlers.gate at hgate
    split_ifs at hgate with hexception hirq <;> cases hgate
    · rfl
    · rfl

theorem raise_ring3_sample :
    ({ zeroCpu with cs := 0x23#16 } : Cpu).raise
        (setUpIdt
          { exceptionTable := fun _ => 0x401000#32, intTable := fun _ => 0x402000#32
            sysCallHandler := 0x403000#32 }
          fun _ => 0#64)
        kernelDs 0x800000#32 .software 3 = .error .generalProtection := by
  have h := @raise_ring3
    { exceptionTable := fun _ => 0x401000#32, intTable := fun _ => 0x402000#32
      sysCallHandler := 0x403000#32 }
    (fun _ => 0#64) { zeroCpu with cs := 0x23#16 } (fun _ => rfl)
    { esp0 := 0x800000#32, ss0 := kernelDs } (by decide) 3
  rwa [if_neg (by decide)] at h

/-- The tables with the handlers of the kernel. -/
def Compiled.tables (code : Compiled) (exceptionTable : Fin 20 → Word) (sysCallHandler : Word) :
    Handlers where
  exceptionTable
  intTable := fun irq => code.address (intTable irq)
  sysCallHandler

/-- What the processor makes of the table: a device interrupt is `serve`, and the `int` of a wrapper
is `int80`. -/
theorem raise_handlers (code : Compiled) (sysCalls : SysCallCode) (exceptionTable : Fin 20 → Word)
    (callHandler : Word) (idt : ℕ → IdtDesc) (tss : Tss) (c : Cpu) :
    (∀ irq : Fin 16,
      (c.raise (setUpIdt (code.tables exceptionTable callHandler) idt) tss.ss0 tss.esp0
        .hardware (32 + irq.val)).map ((intTable irq).run code) = .ok (serve code tss irq c)) ∧
      (c.raise (setUpIdt (code.tables exceptionTable callHandler) idt) tss.ss0 tss.esp0
        .software 0x80).map (sysCallHandler sysCalls) =
          .ok (int80 sysCalls tss callHandler c) := by
  constructor
  · intro irq
    rw [raise_device]
    rfl
  · rw [raise_sysCall]
    rfl

end

/-! ## Segment descriptors -/

/-- `seg_desc_t` -/
abbrev SegDesc := BitVec 64

namespace SegDesc

abbrev segLim1500 : BitField 64 := { offset := 0, width := 16 }
abbrev base1500 : BitField 64 := { offset := 16, width := 16 }
abbrev base2316 : BitField 64 := { offset := 32, width := 8 }
abbrev type : BitField 64 := { offset := 40, width := 4 }
abbrev sys : BitField 64 := { offset := 44, width := 1 }
abbrev dpl : BitField 64 := { offset := 45, width := 2 }
abbrev present : BitField 64 := { offset := 47, width := 1 }
abbrev segLim1916 : BitField 64 := { offset := 48, width := 4 }
abbrev avail : BitField 64 := { offset := 52, width := 1 }
abbrev reserved : BitField 64 := { offset := 53, width := 1 }
abbrev opsize : BitField 64 := { offset := 54, width := 1 }
abbrev granularity : BitField 64 := { offset := 55, width := 1 }
abbrev base3124 : BitField 64 := { offset := 56, width := 8 }

/-- `SET_LDT_PARAMS` and `SET_TSS_PARAMS`, which are the same. -/
def setParams (addr lim : Word) (d : SegDesc) : SegDesc :=
  let d := base3124.set (((addr &&& 0xFF000000#32) >>> 24).setWidth 8) d
  let d := base2316.set (((addr &&& 0x00FF0000#32) >>> 16).setWidth 8) d
  let d := base1500.set ((addr &&& 0x0000FFFF#32).setWidth 16) d
  let d := segLim1916.set (((lim &&& 0x000F0000#32) >>> 16).setWidth 4) d
  segLim1500.set ((lim &&& 0x0000FFFF#32).setWidth 16) d

end SegDesc

open SegDesc in
/-- The block of `entry` that makes the descriptor of the LDT. -/
def ldtDesc (theLdtDesc : SegDesc) (ldt ldtSize : Word) : SegDesc :=
  let d := granularity.set 0#1 theLdtDesc
  let d := opsize.set 1#1 d
  let d := reserved.set 0#1 d
  let d := avail.set 0#1 d
  let d := present.set 1#1 d
  let d := dpl.set 0#2 d
  let d := sys.set 0#1 d
  let d := type.set 2#4 d
  setParams ldt ldtSize d

open SegDesc in
/-- The block of `entry` that makes the descriptor of the TSS. The limit is assigned twice: first it
is `TSS_SIZE`. -/
def tssDesc (theTssDesc : SegDesc) (tss tssSize : Word) : SegDesc :=
  let d := granularity.set 0#1 theTssDesc
  let d := opsize.set 0#1 d
  let d := reserved.set 0#1 d
  let d := avail.set 0#1 d
  let d := segLim1916.set ((104#32 &&& 0x000F0000#32).setWidth 4) d
  let d := present.set 1#1 d
  let d := dpl.set 0#2 d
  let d := sys.set 0#1 d
  let d := type.set 9#4 d
  let d := segLim1500.set ((104#32 &&& 0x0000FFFF#32).setWidth 16) d
  setParams tss tssSize d

open SegDesc in
/-- The processor reads the fields of `seg_desc_t`. -/
theorem ofDescriptor_eq (d : SegDesc) : Segment.ofDescriptor d =
    { base := base3124.get d ++ (base2316.get d ++ base1500.get d)
      limit := segLim1916.get d ++ segLim1500.get d
      type := type.get d
      codeOrData := (sys.get d).getLsbD 0
      dpl := dpl.get d
      present := (present.get d).getLsbD 0
      avail := (avail.get d).getLsbD 0
      reserved := (reserved.get d).getLsbD 0
      opsize := (opsize.get d).getLsbD 0
      granularity := (granularity.get d).getLsbD 0 } := by
  simp only [BitField.get, BitVec.getLsbD_extractLsb', Nat.add_zero, Nat.zero_lt_one, decide_true,
    Bool.true_and]
  rfl

/-- The parameters of a descriptor are the base and the low 20 bits of the limit. -/
theorem ofDescriptor_setParams (addr lim : Word) (d : SegDesc) :
    Segment.ofDescriptor (SegDesc.setParams addr lim d) =
      { Segment.ofDescriptor d with base := addr, limit := lim.setWidth 20 } := by
  have hbase :
      addr.extractLsb' 24 8 ++ (addr.extractLsb' 16 8 ++ addr.extractLsb' 0 16) = addr := by
    rw [BitVec.extractLsb'_append_extractLsb'_eq_extractLsb' (by rfl),
      BitVec.extractLsb'_append_extractLsb'_eq_extractLsb' (by rfl)]
    exact BitVec.extractLsb'_eq_self
  have hlimit : lim.extractLsb' 16 4 ++ lim.extractLsb' 0 16 = lim.setWidth 20 := by
    rw [BitVec.extractLsb'_append_extractLsb'_eq_extractLsb' (by rfl)]
    rfl
  have hlow : ∀ x : Word, (x &&& 0xFFFF#32).setWidth 16 = x.extractLsb' 0 16 := by
    intro x
    rw [← BitField.setWidth_ushiftRight_and (m := 0xFFFF#32) rfl, BitVec.ushiftRight_zero]
  rw [ofDescriptor_eq, ofDescriptor_eq]
  simp (disch := decide) only [SegDesc.setParams, BitField.get_set, BitField.get_set_of_disjoint,
    hlow]
  rw [BitField.setWidth_ushiftRight_and rfl, BitField.setWidth_ushiftRight_and rfl,
    BitField.setWidth_ushiftRight_and rfl, hbase, hlimit]

/-- The processor reads the address and the size of the LDT, and nothing of what was on the
stack. -/
theorem ofDescriptor_ldtDesc (theLdtDesc : SegDesc) (ldt ldtSize : Word) :
    Segment.ofDescriptor (ldtDesc theLdtDesc ldt ldtSize) =
      { base := ldt, limit := ldtSize.setWidth 20, type := 2#4, codeOrData := false, dpl := 0#2
        present := true, avail := false, reserved := false, opsize := true
        granularity := false } := by
  rw [ldtDesc, ofDescriptor_setParams, ofDescriptor_eq]
  simp (disch := decide) only [BitField.get_set, BitField.get_set_of_disjoint]
  rfl

/-- The same for the TSS. -/
theorem ofDescriptor_tssDesc (theTssDesc : SegDesc) (tss tssSize : Word) :
    Segment.ofDescriptor (tssDesc theTssDesc tss tssSize) =
      { base := tss, limit := tssSize.setWidth 20, type := 9#4, codeOrData := false, dpl := 0#2
        present := true, avail := false, reserved := false, opsize := false
        granularity := false } := by
  rw [tssDesc, ofDescriptor_setParams, ofDescriptor_eq]
  simp (disch := decide) only [BitField.get_set, BitField.get_set_of_disjoint]
  rfl

end Ece391
