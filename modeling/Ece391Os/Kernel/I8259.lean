import Ece391Os.Lib.Memory

/-!
# The 8259 interrupt controllers

The shadow masks of `i8259.c` and the bytes its functions send to the two controllers. A set bit of
`masterMask` (IRQ 0 to 7) or `slaveMask` (IRQ 8 to 15) masks that line; `out` is the list of port
writes, oldest first.
-/

namespace Ece391

/-- The two shadow masks and the bytes written to the controllers' ports, as `(port, data)`. -/
structure I8259 where
  masterMask : Byte
  slaveMask : Byte
  out : List (Word × Byte)

namespace I8259

/-- `MASTER_8259_PORT` -/
def masterPort : Word := 0x20#32
/-- `MASTER_8259_PORT2`, the master's mask register. -/
def masterPort2 : Word := 0x21#32
/-- `SLAVE_8259_PORT` -/
def slavePort : Word := 0xA0#32
/-- `SLAVE_8259_PORT2`, the slave's mask register. -/
def slavePort2 : Word := 0xA1#32
/-- `EOI`, combined with the line number to declare an interrupt finished. -/
def eoi : Byte := 0x60#8

/-- `outb(data, port)` -/
def outb (data : Byte) (port : Word) (p : I8259) : I8259 :=
  { p with out := p.out ++ [(port, data)] }

/-- `0xff - (1 << irq_num)`, cut to the byte it is and-ed with. -/
def clearMask (irqNum : Word) : Byte := (0xff#32 - (1#32 <<< irqNum)).setWidth 8

/-- `1 << irq_num`, cut to the byte it is or-ed into. -/
def setMask (irqNum : Word) : Byte := (1#32 <<< irqNum).setWidth 8

/-- `i8259_init`: mask every line, then send the initialization words to both controllers. -/
def i8259Init (p : I8259) : I8259 :=
  { p with masterMask := 0xff#8, slaveMask := 0xff#8 }
    |>.outb 0xff#8 masterPort2 |>.outb 0xff#8 slavePort2
    |>.outb 0x11#8 masterPort |>.outb 0x20#8 masterPort2
    |>.outb 0x04#8 masterPort2 |>.outb 0x01#8 masterPort2
    |>.outb 0x11#8 slavePort |>.outb 0x28#8 slavePort2
    |>.outb 0x02#8 slavePort2 |>.outb 0x01#8 slavePort2

/-- `enable_irq`: unmask a line; a line of the slave also unmasks the cascade, IRQ 2. -/
def enableIrq (irqNum : Word) (p : I8259) : I8259 :=
  if irqNum &&& 8#32 ≠ 0#32 then
    let slave := p.slaveMask &&& clearMask (irqNum &&& 7#32)
    let master := p.masterMask &&& clearMask 2#32
    { p with slaveMask := slave, masterMask := master }
      |>.outb slave slavePort2 |>.outb master masterPort2
  else
    let master := p.masterMask &&& clearMask irqNum
    { p with masterMask := master } |>.outb master masterPort2

/-- `disable_irq`: mask a line. -/
def disableIrq (irqNum : Word) (p : I8259) : I8259 :=
  if irqNum &&& 8#32 ≠ 0#32 then
    let slave := p.slaveMask ||| setMask (irqNum &&& 7#32)
    { p with slaveMask := slave } |>.outb slave slavePort2
  else
    let master := p.masterMask ||| setMask irqNum
    { p with masterMask := master } |>.outb master masterPort2

/-- `send_eoi` -/
def sendEoi (irqNum : Word) (p : I8259) : I8259 :=
  if irqNum &&& 8#32 ≠ 0#32 then
    p.outb ((irqNum - 8#32).setWidth 8 ||| eoi) slavePort |>.outb (2#8 ||| eoi) masterPort
  else
    p.outb (irqNum.setWidth 8 ||| eoi) masterPort

variable (p : I8259)

@[simp]
theorem masterMask_enableIrq_zero : (p.enableIrq 0#32).masterMask = p.masterMask &&& 0xFE#8 := rfl

@[simp]
theorem masterMask_disableIrq_zero : (p.disableIrq 0#32).masterMask = p.masterMask ||| 1#8 := rfl

@[simp]
theorem masterMask_enableIrq_eight :
    (p.enableIrq 8#32).masterMask = p.masterMask &&& 0xFB#8 := rfl

/-- Masking IRQ 0 changes nothing exactly when it was masked. -/
theorem or_one_eq_self_iff (m : Byte) : m ||| 1#8 = m ↔ m.getLsbD 0 = true := by
  revert m
  decide +kernel

/-- Unmasking IRQ 0, after masking it, changes nothing exactly when it was unmasked. -/
theorem or_one_and_eq_self_iff (m : Byte) :
    (m ||| 1#8) &&& 0xFE#8 = m ↔ m.getLsbD 0 = false := by
  revert m
  decide +kernel

end I8259

end Ece391
