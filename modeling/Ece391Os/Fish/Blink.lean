import Ece391Os.Lib.LinkedList
import Ece391Os.Lib.Memory
import Ece391Os.Lib.Transition

/-!
# The blinkers of `fish`

`blink.S`, with `mp1_malloc` and `mp1_free` of `fish.c`. The program keeps the characters that blink
on its screen in a linked list of slots of `blink_array`; a slot is free when its location is 0.

* `BlinkState` is the memory of the program: the slots, the head of the list, and the video page.
* `mp1IoctlAdd`, `mp1IoctlRemove`, `mp1IoctlFind`, `mp1IoctlSync` are the four commands of
  `mp1_ioctl`, and `mp1RtcTasklet` is what the program calls at every tick of the clock. The loops
  over the list are those of `Links`; `none` is a loop that does not end.
* `Board` says what the program is for: the blinkers in the order of the list, and the page.
-/

namespace Ece391

open Transition

/-- A slot of `blink_array`, which has 80*25 of them. -/
abbrev Slot := Fin 2000

/-- The fields of a `struct mp1_blink_struct` without the pointer. -/
structure Blinker where
  location : BitVec 16
  onChar : Byte
  offChar : Byte
  onLength : BitVec 16
  offLength : BitVec 16
  countdown : BitVec 16
  status : BitVec 16
  deriving DecidableEq

/-- `struct mp1_blink_struct` -/
structure BlinkStruct extends Blinker where
  next : Option Slot

/-- The memory of the program. `vmem` is the page at `vmem_base_addr`. -/
structure BlinkState where
  blinkArray : Slot → BlinkStruct
  mp1ListHead : Option Slot
  vmem : Buffer

namespace Blinker

/-- The offset of a blinker's character on the video page: `shl $1` of the location. -/
def cell (b : Blinker) : ℕ := 2 * b.location.toNat

/-- `testw $0x1,STATUS` -/
def isOn (b : Blinker) : Bool := b.status &&& 1#16 ≠ 0#16

/-- The body of `tasklet_loop` counts down, and at the end of the count starts the other phase. -/
def tick (b : Blinker) : Blinker :=
  let countdown := b.countdown - 1#16
  -- `cmpw` with `jg`: the countdown is signed
  if 0 < countdown.toInt then { b with countdown }
  else if b.isOn then { b with countdown := b.offLength, status := b.status ^^^ 1#16 }
  else { b with countdown := b.onLength, status := b.status ^^^ 1#16 }

/-- The character the body of `tasklet_loop` draws, if it draws one. -/
def tickChar (b : Blinker) : Option Byte :=
  if 0 < (b.countdown - 1#16).toInt then none
  else if b.isOn then some b.offChar
  else some b.onChar

/-- `sync_copy_loop` from `src`. -/
def syncFrom (b src : Blinker) : Blinker :=
  { b with
    onLength := src.onLength, offLength := src.offLength
    countdown := src.countdown, status := src.status }

/-- The character `sync_display` draws. `cmovl` moves if the sign and the overflow flag differ;
`testb $0x1,STATUS` has cleared the overflow flag. -/
def syncChar (b : Blinker) : Byte :=
  let signFlag := (b.status.setWidth 8 &&& 1#8).msb
  let overflowFlag := false
  if signFlag ≠ overflowFlag then b.onChar else b.offChar

/-- The temporary structure of `mp1_ioctl_add`: on, for its first phase. -/
def started (b : Blinker) : Blinker := { b with status := 1#16, countdown := b.onLength }

end Blinker

/-- What `ece391_memset` leaves. -/
def BlinkStruct.zero : BlinkStruct where
  location := 0#16
  onChar := 0#8
  offChar := 0#8
  onLength := 0#16
  offLength := 0#16
  countdown := 0#16
  status := 0#16
  next := none

namespace BlinkState

variable (s : BlinkState)

/-- The pointers of the list. -/
def links : Links Slot where
  head := s.mp1ListHead
  next i := (s.blinkArray i).next

/-- Assign a slot. -/
def setSlot (i : Slot) (node : BlinkStruct) : BlinkState :=
  { s with blinkArray := Function.update s.blinkArray i node }

/-- Assign the data of a slot. -/
def setData (i : Slot) (b : Blinker) : BlinkState :=
  s.setSlot i { s.blinkArray i with toBlinker := b }

/-- Store to a link: `mp1_list_head`, or the pointer of a slot. -/
def storeLink (link p : Option Slot) : BlinkState :=
  match link with
  | none => { s with mp1ListHead := p }
  | some i => s.setSlot i { s.blinkArray i with next := p }

/-- `mp1_poke` -/
def mp1Poke (eax : ℕ) (cl : Byte) : BlinkState :=
  { s with vmem := Function.update s.vmem eax cl }

/-- `mp1_malloc`: the first slot whose location is 0. -/
def mp1Malloc : Option Slot :=
  (List.finRange 2000).find? fun i => (s.blinkArray i).location == 0#16

/-- `mp1_free` -/
def mp1Free (i : Slot) : BlinkState := s.setSlot i BlinkStruct.zero

/-- There are 2000 slots, so a loop that comes to a node for the 2001st time goes in a circle. -/
def loopLimit : ℕ := 2001

/-- `mp1_find_helper`, which loads 16 bits of its argument. -/
def mp1FindHelper (arg : Word) : Option (Option Slot) :=
  Links.search s.links.next (fun i => (s.blinkArray i).location == arg.setWidth 16) loopLimit
    s.links.head

/-- `mp1_ioctl_add` of a structure of the caller: the return value and the memory. -/
def mp1IoctlAdd (user : BlinkStruct) : Word × BlinkState :=
  if 2000 ≤ user.location.toNat then (-1#32, s)
  else
    match s.mp1Malloc with
    | none => (-1#32, s)
    | some i =>
      -- the structure is copied, and put in front of the list
      let node : BlinkStruct := { toBlinker := user.started, next := s.mp1ListHead }
      (0#32, ({ s.setSlot i node with mp1ListHead := some i }).mp1Poke node.cell node.onChar)

/-- `mp1_ioctl_remove` -/
def mp1IoctlRemove (arg : Word) : Option (Word × BlinkState) := do
  match ← s.mp1FindHelper arg with
  | none => some (-1#32, s)
  | some i =>
    -- `remove_find_prev`: the link is `mp1_list_head`, or the pointer of a node
    let link ← s.links.findLink i loopLimit none
    some (0#32, (s.storeLink link (s.blinkArray i).next).mp1Free i)

/-- `mp1_ioctl_find`: the return value and the structure of the caller, whose location it looks
for. -/
def mp1IoctlFind (user : BlinkStruct) : Option (Word × BlinkStruct) := do
  match ← s.mp1FindHelper (user.location.setWidth 32) with
  | none => some (-1#32, user)
  | some i => some (0#32, s.blinkArray i)

/-- `mp1_ioctl_sync`: the first location is the upper half of the argument. -/
def mp1IoctlSync (arg : Word) : Option (Word × BlinkState) := do
  match ← s.mp1FindHelper (arg >>> 16) with
  | none => some (-1#32, s)
  | some esi =>
    match ← s.mp1FindHelper (arg &&& 0xFFFF#32) with
    | none => some (-1#32, s)
    | some edi =>
      -- `sync_copy_loop` and `sync_display`, of the second node
      let b := (s.blinkArray edi).toBlinker.syncFrom (s.blinkArray esi).toBlinker
      some (0#32, (s.setData edi b).mp1Poke b.cell b.syncChar)

/-- The body of `tasklet_loop`. -/
def tickNode (i : Slot) (s : BlinkState) : BlinkState :=
  let b := (s.blinkArray i).toBlinker
  match b.tickChar with
  | none => s.setData i b.tick
  | some c => (s.setData i b.tick).mp1Poke b.cell c

/-- `mp1_rtc_tasklet` -/
def mp1RtcTasklet : Option BlinkState :=
  Links.traverse (fun s i => (s.blinkArray i).next) tickNode loopLimit s.mp1ListHead s

/-- The memory at the start of `main`. -/
def start (vmem : Buffer) : BlinkState :=
  { blinkArray := fun _ => BlinkStruct.zero, mp1ListHead := none, vmem }

end BlinkState

/-- A call of `mp1_ioctl`, or of `mp1_rtc_tasklet`. -/
inductive BlinkEvent
  | add (user : BlinkStruct)
  | remove (arg : Word)
  | find (user : BlinkStruct)
  | sync (arg : Word)
  | tasklet

/-- The memory after a call. -/
def blinkStep (s : BlinkState) : BlinkEvent → Option BlinkState
  | .add user => some (s.mp1IoctlAdd user).2
  | .remove arg => (s.mp1IoctlRemove arg).map Prod.snd
  | .find user => (s.mp1IoctlFind user).map fun _ => s
  | .sync arg => (s.mp1IoctlSync arg).map Prod.snd
  | .tasklet => s.mp1RtcTasklet

/-! ## What the program is for -/

/-- The blinkers, the latest first, and the video page. -/
structure Board where
  blinkers : List Blinker
  vmem : Buffer

namespace Board

/-- Draw a character in the cell of a blinker. -/
def draw (vmem : Buffer) (b : Blinker) (c : Byte) : Buffer := Function.update vmem b.cell c

/-- The page after the tick of one blinker. -/
def drawTick (vmem : Buffer) (b : Blinker) : Buffer := b.tickChar.elim vmem (draw vmem b)

/-- Change the first element with a property. -/
def modifyFirst (p : Blinker → Bool) (f : Blinker → Blinker) : List Blinker → List Blinker
  | [] => []
  | b :: l => if p b then f b :: l else b :: modifyFirst p f l

/-- The blinker is at the location in the lower half of a word. -/
def isAt (arg : Word) (b : Blinker) : Bool := b.location == arg.setWidth 16

/-- What a call does to the board. -/
def step (d : Board) : BlinkEvent → Board
  | .add user =>
    if user.location.toNat < 2000 ∧ d.blinkers.length < 2000 then
      { blinkers := user.started :: d.blinkers
        vmem := draw d.vmem user.started user.onChar }
    else d
  | .remove arg => { d with blinkers := d.blinkers.eraseP (isAt arg) }
  | .find _ => d
  | .sync arg =>
    match d.blinkers.find? (isAt (arg >>> 16)), d.blinkers.find? (isAt (arg &&& 0xFFFF#32)) with
    | some src, some b =>
      { blinkers := modifyFirst (isAt (arg &&& 0xFFFF#32)) (·.syncFrom src) d.blinkers
        vmem := draw d.vmem b (b.syncFrom src).syncChar }
    | _, _ => d
  | .tasklet =>
    { blinkers := d.blinkers.map Blinker.tick, vmem := d.blinkers.foldl drawTick d.vmem }

end Board

end Ece391
