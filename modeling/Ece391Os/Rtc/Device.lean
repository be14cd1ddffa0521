import Ece391Os.Lib.Memory

/-!
# The registers of the real-time clock

The clock has an address port, which selects a register, and a data port for the selected register.
A register holds what has been written to it; the steps the clock makes by itself are not part of
the device.
-/

namespace Ece391

/-- The selected register, and the registers. -/
structure Cmos where
  address : Byte
  regs : Byte → Byte

namespace Cmos

/-- `RTC_PORT1`, also `RTC_ADDR_PORT` -/
def rtcPort1 : Word := 0x70#32
/-- `RTC_PORT2`, also `RTC_DATA_PORT` -/
def rtcPort2 : Word := 0x71#32

/-- `outb(data, port)`. Bit 7 of an address masks the NMI and is not part of the address. -/
def outb (data : Byte) (port : Word) (c : Cmos) : Cmos :=
  if port = rtcPort1 then { c with address := data &&& 0x7F#8 }
  else if port = rtcPort2 then { c with regs := Function.update c.regs c.address data }
  else c

/-- `inb(RTC_PORT2)` -/
def inb (c : Cmos) : Byte := c.regs c.address

variable (data : Byte) (c : Cmos)

@[simp]
theorem address_outb_rtcPort1 : (c.outb data rtcPort1).address = data &&& 0x7F#8 := rfl

@[simp]
theorem regs_outb_rtcPort1 : (c.outb data rtcPort1).regs = c.regs := rfl

@[simp]
theorem address_outb_rtcPort2 : (c.outb data rtcPort2).address = c.address := rfl

@[simp]
theorem regs_outb_rtcPort2 :
    (c.outb data rtcPort2).regs = Function.update c.regs c.address data := rfl

end Cmos

end Ece391
