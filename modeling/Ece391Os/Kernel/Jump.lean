import Ece391Os.Kernel.State
import Ece391Os.Lib.I386

/-!
# `jump_to_program` and `exit_to_shell`

The two routines of `sys_call.S` that `execute` and `halt` end in. The first one leaves its stack
pointer in `shell_esp_array` and enters user mode, the second one takes a stack pointer from there
and returns, with its own argument as the value, from the call of the first that has left it.

* `words_jumpToProgram` and `jumpToProgram_table`: what the first one leaves.
* `exitToShell_returns`: the return, if the two words it has left on the stack are intact.
-/

namespace Ece391

open I386

/-- `USER_CS` -/
def userCs : Word := 0x23#32

/-- `USER_DS` -/
def userDs : Word := 0x2B#32

/-- The first instructions of `jump_to_program`, up to its own frame: the flags go to `eax`. -/
def jumpEntered (c : Cpu) : Cpu := ((c.push c.eflags).pop (.gpr .eax)).enter

/-- `jump_to_program(esp, eip, parent_pid)`, called with its arguments on the stack of `c`: the
frame table and the state it ends in. A negative pid saves nothing. -/
def jumpToProgram (shellEspArray : ℕ → Word) (c : Cpu) : (ℕ → Word) × Cpu :=
  let c := jumpEntered c
  let parent := leWord c.mem (c.gpr .ebp + 16#32)
  let table :=
    if parent.toInt < 0 then shellEspArray
    else Function.update shellEspArray parent.toNat c.esp
  -- `continue_jump_to_p`
  let userEsp := leWord c.mem (c.gpr .ebp + 8#32)
  let userEip := leWord c.mem (c.gpr .ebp + 12#32)
  let c := (c.set parent (.gpr .ecx)).pushWords [userDs, userEsp, c.gpr .eax, userCs, userEip]
  let c := c.set userEsp (.gpr .ebp)
  let c := c.set ((c.gpr .eax &&& 0xFFFF0000#32) ||| userDs) (.gpr .eax)
  (table, (c.set userDs (.seg .ds)).iret)

/-- `exit_to_shell(status, pid)`, called with its arguments on the stack of `c`. -/
def exitToShell (shellEspArray : ℕ → Word) (c : Cpu) : Cpu :=
  let c := c.enter
  let c := c.set (leWord c.mem (c.gpr .ebp + 8#32)) (.gpr .eax)
  let c := c.set (leWord c.mem (c.gpr .ebp + 12#32)) (.gpr .ecx)
  let c := { c with esp := shellEspArray (c.gpr .ecx).toNat }
  (c.set c.esp (.gpr .ebp)).leave.ret

/-- The frame `jump_to_program` leaves: the `ebp` of its caller, and the address it returns to. -/
def jumpFrame (c : Cpu) : List Word := [c.gpr .ebp, leWord c.mem c.esp]

variable {c d : Cpu} {table : ℕ → Word} {p : ℕ}

theorem esp_jumpEntered (c : Cpu) : (jumpEntered c).esp = c.esp - 4#32 := by
  have hesp : c.esp - 4#32 + 4#32 - 4#32 = c.esp - 4#32 := by rw [BitVec.sub_add_cancel]
  exact hesp

theorem ebp_jumpEntered (c : Cpu) : (jumpEntered c).gpr .ebp = c.esp - 4#32 := by
  rw [← esp_jumpEntered, jumpEntered, Cpu.ebp_enter]
  rfl

theorem mem_jumpEntered (c : Cpu) : (jumpEntered c).mem =
    storeWord (storeWord c.mem (c.esp - 4#32) c.eflags) (c.esp - 4#32) (c.gpr .ebp) := by
  have hmem : (jumpEntered c).mem = storeWord (storeWord c.mem (c.esp - 4#32) c.eflags)
      (c.esp - 4#32 + 4#32 - 4#32) (c.gpr .ebp) := rfl
  rw [hmem, BitVec.sub_add_cancel]

/-- The arguments and the return address lie above the frame. -/
theorem agree_jumpEntered (c : Cpu) : Agree c.esp 20 c.mem (jumpEntered c).mem := by
  rw [mem_jumpEntered]
  exact (agree_storeWord (by decide)).trans (agree_storeWord (by decide))

/-- `jump_to_program` leaves its frame below the stack pointer of its caller. -/
theorem words_jumpToProgram (table : ℕ → Word) (c : Cpu) :
    words (jumpToProgram table c).2.mem (c.esp - 4#32) 2 = jumpFrame c := by
  -- the five words `iret` takes lie below the frame
  have hkept : Agree (c.esp - 4#32) 8 (jumpEntered c).mem (jumpToProgram table c).2.mem := by
    rw [← esp_jumpEntered]
    simp only [jumpToProgram, Cpu.mem_iret, Cpu.mem_set, Cpu.pushWords_set]
    exact Cpu.agree_pushWords (by simp)
  have hreturn : leWord (jumpEntered c).mem (c.esp - 4#32 + 4#32) = leWord c.mem c.esp := by
    rw [BitVec.sub_add_cancel]
    exact leWord_congr ((agree_jumpEntered c).mono (by decide))
  rw [words_congr hkept, words, words, words, hreturn, mem_jumpEntered, leWord_storeWord, jumpFrame]

/-- A pid that is not negative selects the entry the stack pointer is saved in. -/
theorem jumpToProgram_table (hp : p < 2 ^ 31)
    (harg : leWord c.mem (c.esp + 12#32) = BitVec.ofNat 32 p) :
    (jumpToProgram table c).1 = Function.update table p (c.esp - 4#32) := by
  have hparent : leWord (jumpEntered c).mem ((jumpEntered c).gpr .ebp + 16#32) =
      BitVec.ofNat 32 p := by
    have haddr : c.esp - 4#32 + 16#32 = c.esp + 12#32 := by bv_omega
    rw [ebp_jumpEntered, haddr, leWord_congr ((agree_jumpEntered c).part 12 (by decide)), harg]
  have hpos : ¬ (BitVec.ofNat 32 p).toInt < 0 := by
    rw [BitVec.toInt_eq_toNat_of_lt] <;> rw [BitVec.toNat_ofNat] <;> omega
  have hnat : (BitVec.ofNat 32 p).toNat = p := by
    rw [BitVec.toNat_ofNat]
    omega
  simp only [jumpToProgram, hparent, hpos, if_false, hnat, esp_jumpEntered]

/-- `exit_to_shell` returns from the call of `jump_to_program` whose frame the table points to. -/
theorem exitToShell_returns {status esp ebp eip : Word}
    (hstatus : leWord d.mem (d.esp + 4#32) = status)
    (hpid : leWord d.mem (d.esp + 8#32) = BitVec.ofNat 32 p) (hp : p < 2 ^ 31)
    (htable : table p = esp)
    (hframe : words (storeWord d.mem (d.esp - 4#32) (d.gpr .ebp)) esp 2 = [ebp, eip]) :
    (exitToShell table d).gpr .eax = status ∧ (exitToShell table d).gpr .ebp = ebp ∧
      (exitToShell table d).esp = esp + 8#32 ∧ (exitToShell table d).eip = eip := by
  simp only [words, List.cons.injEq, and_true] at hframe
  obtain ⟨hebp, heip⟩ := hframe
  have hkept : Agree d.esp 12 d.mem d.enter.mem := agree_storeWord (by decide)
  have heax : leWord d.enter.mem (d.enter.gpr .ebp + 8#32) = status := by
    rw [Cpu.ebp_enter, show d.esp - 4#32 + 8#32 = d.esp + 4#32 by bv_omega,
      leWord_congr (hkept.part 4 (by decide)), hstatus]
  have hecx : leWord d.enter.mem (d.enter.gpr .ebp + 12#32) = BitVec.ofNat 32 p := by
    rw [Cpu.ebp_enter, show d.esp - 4#32 + 12#32 = d.esp + 8#32 by bv_omega,
      leWord_congr (hkept.part 8 (by decide)), hpid]
  have hnat : (BitVec.ofNat 32 p).toNat = p := by
    rw [BitVec.toNat_ofNat]
    omega
  have hesp : esp + 4#32 + 4#32 = esp + 8#32 := by bv_omega
  rw [← Cpu.mem_enter] at hebp heip
  simp [exitToShell, Cpu.set, Cpu.leave, Cpu.pop, Cpu.ret, heax, hecx, hnat, htable, hebp, heip,
    hesp]

end Ece391
