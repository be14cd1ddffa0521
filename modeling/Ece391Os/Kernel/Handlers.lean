import Ece391Os.Kernel.State
import Ece391Os.Lib.I386

/-!
# The handlers of the device interrupts

`handlers.S` wraps `timer`, `kbd` and `rtc_handler` in code that saves and restores the registers of
the interrupted program. `int_table` of `kernel.c` installs the wrapper of the timer, but the C
functions `kbd` and `rtc_handler` themselves, which leave by `leave; iret` before their epilogues.

* `Compiled` is what the compiler makes of the C functions, of which nothing but the calling
  convention is known.
* `timerHand_interrupt`: the timer's handler returns to the interrupted code in the state it has
  left.
* `transparent_iff_timer`: of the device interrupts only the timer keeps every register, whatever
  the compiler does.
-/

namespace Ece391

open I386

/-- `KERNEL_CS` -/
def kernelCs : BitVec 16 := 0x10#16

/-- What `int_table` can hold. -/
inductive Handler
  | timerHand
  | kbd
  | rtcHandler
  | dfthand
  deriving DecidableEq

/-- `int_table` -/
def intTable (irq : Fin 16) : Handler :=
  if irq = 0 then .timerHand
  else if irq = 1 then .kbd
  else if irq = 8 then .rtcHandler
  else .dfthand

/-- The interrupts of the timer, the keyboard and the clock. -/
def deviceIrqs : List (Fin 16) := [0, 1, 8]

/-- The compiled C functions. `timer` is a call in which `context_switch` does not switch: above its
stack pointer lie nine saved registers and the interrupt frame. The statements of `kbd` and
`rtc_handler` up to their `leave; iret` have the saved `ebp` and the frame above theirs. -/
structure Compiled where
  timer : CFunction 56
  kbd : CBody 24
  rtcHandler : CBody 24
  dfthand : CFunction 20
  /-- Where the linker has put the handlers. -/
  address : Handler → Word

/-- The pushes of `timer_hand`. -/
def savedRegs : List Reg :=
  [.seg .es, .seg .ds, .gpr .eax, .gpr .ebp, .gpr .edi, .gpr .esi, .gpr .edx, .gpr .ecx, .gpr .ebx]

/-- The pops of `timer_hand` and of `switch_to_prog`. -/
def restoredRegs : List Reg :=
  [.gpr .ebx, .gpr .ecx, .gpr .edx, .gpr .esi, .gpr .edi, .gpr .ebp, .gpr .eax, .seg .ds, .seg .es]

/-- The code of a handler from the state the processor enters it in. -/
def Handler.run (code : Compiled) : Handler → Cpu → Cpu
  | timerHand, c => ((code.timer.run (c.pushAll savedRegs)).popAll restoredRegs).iret
  | kbd, c => (code.kbd.run c.enter).leave.iret
  | rtcHandler, c => (code.rtcHandler.run c.enter).leave.iret
  | dfthand, c => (code.dfthand.run c).ret

/-- An interrupt from its arrival to the `iret` of its handler. -/
def serve (code : Compiled) (tss : Tss) (irq : Fin 16) (c : Cpu) : Cpu :=
  (intTable irq).run code
    (c.interrupt tss.ss0 tss.esp0 kernelCs (code.address (intTable irq)))

/-- The nine registers are as before. -/
def SameRegisters (c c' : Cpu) : Prop := ∀ r, c'.get r = c.get r

/-- A processor with zeros in all registers. -/
def zeroCpu : Cpu where
  gpr := fun _ => 0#32
  seg := fun _ => 0#16
  esp := 0#32
  ss := 0#16
  eip := 0#32
  cs := 0#16
  eflags := 0#32
  mem := fun _ => 0#8

variable {c : Cpu}

/-! ## The timer -/

/-- The pops undo the pushes. -/
theorem restoredRegs_eq : restoredRegs = savedRegs.reverse := rfl

theorem nodup_savedRegs : savedRegs.Nodup := by decide

theorem mem_savedRegs (r : Reg) : r ∈ savedRegs := by
  rcases r with r | s
  · cases r <;> decide
  · cases s <;> decide

/-- The saved registers lie below the frame of the interrupt, and both are kept by a function that
keeps 56 bytes. -/
theorem restore_save {d : Cpu} (hesp : d.esp = (c.pushAll savedRegs).esp)
    (hmem : Agree d.esp 56 (c.pushAll savedRegs).mem d.mem) :
    SameRegisters c (d.popAll restoredRegs) ∧ (d.popAll restoredRegs).esp = c.esp ∧
      Agree c.esp 20 c.mem (d.popAll restoredRegs).mem := by
  have hbase : d.esp + 36#32 = c.esp := by
    rw [hesp, Cpu.pushAll, Cpu.pushWords_eq]
    exact BitVec.sub_add_cancel _ _
  refine ⟨fun r => ?_, ?_, ?_⟩
  · rw [restoredRegs_eq]
    refine Cpu.popAll_pushAll nodup_savedRegs (by decide) hesp ?_ (mem_savedRegs r)
    exact fun j hj => hmem j (lt_trans hj (by decide))
  · rw [Cpu.popAll_eq]
    exact hbase
  · -- the frame: kept by the pushes, then by the function
    have hpush : Agree c.esp 20 c.mem (c.pushAll savedRegs).mem :=
      Cpu.agree_pushWords (by rw [List.length_map]; decide)
    have hkept := hmem.part (m := 20) 36 (by decide)
    rw [show d.esp + BitVec.ofNat 32 36 = c.esp from hbase] at hkept
    rw [Cpu.popAll_eq]
    exact hpush.trans hkept

/-- The wrapper of the timer returns to the interrupted code as it was, but for what the kernel has
written to memory. -/
theorem timerHand_interrupt (code : Compiled) (ss0 : BitVec 16) (esp0 entry : Word) (c : Cpu) :
    ∃ d, SameRegisters c d ∧
      Handler.timerHand.run code (c.interrupt ss0 esp0 kernelCs entry) =
        { d with eip := c.eip, cs := c.cs, eflags := c.eflags, esp := c.esp, ss := c.ss } := by
  generalize hentered : c.interrupt ss0 esp0 kernelCs entry = entered
  generalize hreturned : code.timer.run (entered.pushAll savedRegs) = returned
  have hesp : returned.esp = (entered.pushAll savedRegs).esp := by
    rw [← hreturned]
    exact code.timer.esp _
  have hmem : Agree returned.esp 56 (entered.pushAll savedRegs).mem returned.mem := by
    rw [hesp, ← hreturned]
    exact code.timer.stack _
  obtain ⟨hregs, hback, hframe⟩ := restore_save hesp hmem
  have hlen : 4 * c.frame.length ≤ 20 := Nat.mul_le_mul_left 4 c.length_frame_le
  have hwords : words (returned.popAll restoredRegs).mem (returned.popAll restoredRegs).esp
      c.frame.length = c.frame.reverse := by
    rw [hback, words_congr fun j hj => hframe j (lt_of_lt_of_le hj hlen), ← hentered]
    exact Cpu.words_interrupt
  have hss : (returned.popAll restoredRegs).ss = entered.ss := by
    rw [Cpu.popAll_eq]
    show returned.ss = entered.ss
    rw [← hreturned, code.timer.ss, Cpu.pushAll, Cpu.pushWords_eq]
  subst hentered
  refine ⟨returned.popAll restoredRegs, fun r => (hregs r).trans Cpu.get_interrupt, ?_⟩
  rw [Handler.run, hreturned]
  exact Cpu.iret_interrupt hwords hback hss

theorem serve_timer (code : Compiled) (tss : Tss) (c : Cpu) :
    SameRegisters c (serve code tss 0 c) := by
  obtain ⟨d, hd, hrun⟩ := timerHand_interrupt code tss.ss0 tss.esp0 (code.address .timerHand) c
  have hserve : serve code tss 0 c = Handler.timerHand.run code
      (c.interrupt tss.ss0 tss.esp0 kernelCs (code.address .timerHand)) := rfl
  rw [hserve, hrun]
  intro r
  rw [← hd r]
  rcases r with r | s <;> rfl

/-! ## The handlers without a wrapper -/

/-- Code that leaves by `leave; iret` leaves in `eax` whatever its statements have left there. -/
theorem eax_leave_iret (c : Cpu) : c.leave.iret.get (.gpr .eax) = c.get (.gpr .eax) := by
  rw [Cpu.get_iret, Cpu.leave, Cpu.pop, Cpu.get_set_of_ne (by decide)]
  rfl

/-- No handler that is entered without a wrapper keeps `eax`: what it leaves there does not depend
on the interrupted code. -/
theorem not_sameRegisters_body (body : CBody 24) (ss0 : BitVec 16) (esp0 entry : Word) (c : Cpu) :
    ∃ v, ¬ SameRegisters (c.set v (.gpr .eax))
      (body.run ((c.set v (.gpr .eax)).interrupt ss0 esp0 kernelCs entry).enter).leave.iret := by
  set left := (body.run (c.interrupt ss0 esp0 kernelCs entry).enter).gpr .eax with hleft
  refine ⟨left + 1#32, fun hsame => ?_⟩
  have heax := hsame (.gpr .eax)
  rw [eax_leave_iret, Cpu.interrupt_set_eax, Cpu.enter_set_eax, Cpu.get, body.eax, ← hleft] at heax
  simp [Cpu.get, Cpu.set] at heax

/-- Whatever the compiler makes of the C functions, the timer is the only device whose interrupts
keep all registers of the interrupted code. -/
theorem transparent_iff_timer (code : Compiled) (tss : Tss) {irq : Fin 16}
    (hirq : irq ∈ deviceIrqs) :
    (∀ c, SameRegisters c (serve code tss irq c)) ↔ irq = 0 := by
  constructor
  · intro hsame
    have hbody : ∀ (body : CBody 24) (entry : Word), ¬ ∀ c,
        SameRegisters c
          (body.run (c.interrupt tss.ss0 tss.esp0 kernelCs entry).enter).leave.iret := by
      intro body entry hall
      obtain ⟨v, hv⟩ := not_sameRegisters_body body tss.ss0 tss.esp0 entry zeroCpu
      exact hv (hall _)
    simp only [deviceIrqs, List.mem_cons, List.not_mem_nil, or_false] at hirq
    rcases hirq with rfl | rfl | rfl
    · rfl
    · exact absurd hsame (hbody code.kbd _)
    · exact absurd hsame (hbody code.rtcHandler _)
  · rintro rfl c
    exact serve_timer code tss c

/-- The registers `send_eoi` leaves: `outb` takes the command in `eax` and the port in `edx`. -/
def afterSendEoi (command : Word) (c : Cpu) : Cpu :=
  (c.set command (.gpr .eax)).set 0x20#32 (.gpr .edx)

/-- Handlers that do nothing but their last call, of `send_eoi`. -/
def sampleCode : Compiled where
  timer :=
    { run := afterSendEoi 0x60#32
      gpr := fun c r ha _ hd => by simp [afterSendEoi, Cpu.set, ha, hd]
      seg := fun _ => rfl
      esp := fun _ => rfl
      ss := fun _ => rfl
      stack := fun c => .refl c.mem c.esp 56 }
  kbd :=
    { run := afterSendEoi 0x61#32
      ebp := fun _ => rfl
      seg := fun _ => rfl
      ss := fun _ => rfl
      stack := fun c => .refl c.mem _ 24
      eax := fun _ _ => rfl }
  rtcHandler :=
    { run := afterSendEoi 0x62#32
      ebp := fun _ => rfl
      seg := fun _ => rfl
      ss := fun _ => rfl
      stack := fun c => .refl c.mem _ 24
      eax := fun _ _ => rfl }
  dfthand :=
    { run := id
      gpr := fun _ _ _ _ _ => rfl
      seg := fun _ => rfl
      esp := fun _ => rfl
      ss := fun _ => rfl
      stack := fun c => .refl c.mem c.esp 20 }
  address := fun _ => 0x400000#32

/-- The timer keeps the registers of the code it interrupts. -/
theorem transparent_timer_sample :
    SameRegisters zeroCpu
      (serve sampleCode { esp0 := 0x7FFFFC#32, ss0 := kernelDs } 0 zeroCpu) :=
  (transparent_iff_timer sampleCode _ (by decide)).mpr rfl zeroCpu

/-- A program with 0 in `eax` has the command of `send_eoi` there after a key. -/
theorem not_transparent_kbd :
    ∃ (code : Compiled) (tss : Tss) (c : Cpu), c.get (.gpr .eax) = 0#32 ∧
      (serve code tss 1 c).get (.gpr .eax) = 0x61#32 ∧ ¬ SameRegisters c (serve code tss 1 c) := by
  have heax : (serve sampleCode { esp0 := 0x7FFFFC#32, ss0 := kernelDs } 1 zeroCpu).get
      (.gpr .eax) = 0x61#32 := by
    rw [serve, show intTable 1 = .kbd by decide, Handler.run, eax_leave_iret]
    rfl
  refine ⟨sampleCode, _, zeroCpu, rfl, heax, fun hsame => ?_⟩
  have hzero := (hsame (.gpr .eax)).symm.trans heax
  exact absurd hzero (by decide)

end Ece391
