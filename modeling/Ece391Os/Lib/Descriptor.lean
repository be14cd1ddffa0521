import Ece391Os.Lib.I386

/-!
# Descriptors of the i386

What the processor reads in the eight bytes of a descriptor, and how it gets to a handler.

* `Gate.ofDescriptor` reads an entry of the interrupt descriptor table, `Segment.ofDescriptor` one
  of a descriptor table.
* `Cpu.raise` is an interrupt with a vector: the entry is read and checked, and the handler entered
  through it. Task gates and 16-bit gates are no gates here.
-/

namespace I386

/-- Whether a gate clears the interrupt flag. -/
inductive GateKind
  | interrupt
  | trap
  deriving DecidableEq

/-- A gate to a 32-bit handler. -/
structure Gate where
  kind : GateKind
  present : Bool
  dpl : BitVec 2
  selector : BitVec 16
  offset : Word
  deriving DecidableEq

/-- The kind of gate that the five bits of the type and the system bit name. -/
def GateKind.ofType (type : BitVec 5) : Option GateKind :=
  if type = 0b01110#5 then some .interrupt
  else if type = 0b01111#5 then some .trap
  else none

/-- The gate in an entry. -/
def Gate.ofDescriptor (d : BitVec 64) : Option Gate :=
  (GateKind.ofType (d.extractLsb' 40 5)).map fun kind =>
    { kind
      present := d.getLsbD 47
      dpl := d.extractLsb' 45 2
      selector := d.extractLsb' 16 16
      offset := d.extractLsb' 48 16 ++ d.extractLsb' 0 16 }

/-- A segment descriptor. -/
structure Segment where
  base : Word
  limit : BitVec 20
  type : BitVec 4
  codeOrData : Bool
  dpl : BitVec 2
  present : Bool
  avail : Bool
  reserved : Bool
  opsize : Bool
  granularity : Bool
  deriving DecidableEq

/-- The segment that an entry describes. -/
def Segment.ofDescriptor (d : BitVec 64) : Segment where
  base := d.extractLsb' 56 8 ++ (d.extractLsb' 32 8 ++ d.extractLsb' 16 16)
  limit := d.extractLsb' 48 4 ++ d.extractLsb' 0 16
  type := d.extractLsb' 40 4
  codeOrData := d.getLsbD 44
  dpl := d.extractLsb' 45 2
  present := d.getLsbD 47
  avail := d.getLsbD 52
  reserved := d.getLsbD 53
  opsize := d.getLsbD 54
  granularity := d.getLsbD 55

/-- A fault that the delivery of an interrupt ends in. -/
inductive Fault
  | generalProtection
  | notPresent
  deriving DecidableEq

/-- An interrupt comes from a device or the processor, or from an `int` of the program. -/
inductive Cause
  | hardware
  | software
  deriving DecidableEq

/-- Enter the handler of a gate, on the stack `ss0:esp0` if the privilege level changes. -/
def Cpu.throughGate (c : Cpu) (ss0 : BitVec 16) (esp0 : Word) (gate : Gate) : Cpu :=
  match gate.kind with
  | .interrupt => c.interrupt ss0 esp0 gate.selector gate.offset
  | .trap => c.trap ss0 esp0 gate.selector gate.offset

/-- An interrupt with a vector. An `int` needs a gate that its privilege level may use. -/
def Cpu.raise (c : Cpu) (idt : ℕ → BitVec 64) (ss0 : BitVec 16) (esp0 : Word) (cause : Cause)
    (vector : ℕ) : Except Fault Cpu :=
  match Gate.ofDescriptor (idt vector) with
  | none => .error .generalProtection
  | some gate =>
    if cause = .software ∧ gate.dpl < Cpu.rpl c.cs then .error .generalProtection
    else if gate.present then .ok (c.throughGate ss0 esp0 gate)
    else .error .notPresent

end I386
