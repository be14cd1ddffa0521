import Ece391Os.Kernel.Handlers

/-!
# System calls

The way of a system call from a C call in a program to a C function of the kernel and back: the
wrappers of `ece391syscall.S`, `int $0x80`, and `sys_call_handler` of `sys_call.S`.

* `SysCallCode` is what the compiler makes of the ten functions of `targets`: they keep the stack of
  their caller, and may overwrite their arguments and all registers.
* `sysCallHandler_trap`: the handler calls the function that `eax` names with `ebx`, `ecx` and `edx`
  as arguments, and returns to the program with the value in `eax` and all other registers as they
  were. Any other number gives -1, and no function is called.
* `doCall_returns`: a call of a wrapper is a call of the function of its name. It gets the arguments
  of the caller, its value is returned, and the caller finds its stack pointer and the registers of
  its own.
* `words_start`: a program whose `main` returns a value calls `halt` with it.
-/

namespace Ece391

open I386

/-! ## The handler -/

/-- The functions of `targets`. -/
inductive SysCall
  | halt
  | execute
  | read
  | write
  | open
  | close
  | getargs
  | vidmap
  | setHandler
  | sigreturn
  deriving DecidableEq

/-- `targets`, whose first entry is 0. -/
def targets : List (Option SysCall) :=
  [none, some .halt, some .execute, some .read, some .write, some .open, some .close,
    some .getargs, some .vidmap, some .setHandler, some .sigreturn]

/-- A function of three arguments as its caller sees it when it returns. Its arguments are its own,
but it does not write to the `n` bytes above them. Nothing is said about registers: `execute`
returns through `exit_to_shell` with those of another program. -/
structure CCallee (n : ℕ) where
  run : Cpu → Cpu
  esp : ∀ c, (run c).esp = c.esp
  ss : ∀ c, (run c).ss = c.ss
  stack : ∀ c, Agree (c.esp + 12#32) n c.mem (run c).mem

/-- The compiled functions. Above their arguments lie eight saved registers and the frame. -/
abbrev SysCallCode := SysCall → CCallee 52

/-- The pushes of `sys_call_handler`. -/
def sysCallSaved : List Reg :=
  [.seg .es, .seg .ds, .gpr .ebp, .gpr .edi, .gpr .esi, .gpr .edx, .gpr .ecx, .gpr .ebx]

/-- Its pops. -/
def sysCallRestored : List Reg :=
  [.gpr .ebx, .gpr .ecx, .gpr .edx, .gpr .esi, .gpr .edi, .gpr .ebp, .seg .ds, .seg .es]

/-- The call of a function through `targets`, with the three pushes before it and the `addl` behind
it. -/
def callTarget (f : CCallee 52) (c : Cpu) : Cpu :=
  let c := f.run (c.pushAll [.gpr .edx, .gpr .ecx, .gpr .ebx])
  { c with esp := c.esp + 12#32 }

/-- `sys_call_handler`. A number that is not in `targets` never gets to the call. -/
def sysCallHandler (code : SysCallCode) (c : Cpu) : Cpu :=
  let c := c.pushAll sysCallSaved
  let num := (c.gpr .eax).toInt
  let c :=
    if num < 1 ∨ 10 < num then c.set (-1#32) (.gpr .eax)
    else
      match targets[num.toNat]? with
      | some (some call) => callTarget (code call) c
      | _ => c
  (c.popAll sysCallRestored).iret

/-- The function that a number in `eax` names. -/
def sysCallOf (num : Word) : Option SysCall := (targets[num.toNat]?).join

section

variable {c d : Cpu} {num : Word} {call : SysCall}

theorem sysCallOf_eq_none_iff : sysCallOf num = none ↔ num.toInt < 1 ∨ 10 < num.toInt := by
  have hbounds : (num.toInt < 1 ∨ 10 < num.toInt) ↔ num.toNat = 0 ∨ 10 < num.toNat := by
    rw [BitVec.toInt_eq_toNat_cond]
    split_ifs <;> omega
  rw [hbounds, sysCallOf]
  by_cases hlarge : 10 < num.toNat
  · have hnone : targets[num.toNat]? = none := List.getElem?_eq_none (by exact hlarge)
    rw [hnone]
    exact iff_of_true rfl (Or.inr hlarge)
  · have hall : ∀ n ≤ 10, (targets[n]?).join = none ↔ n = 0 ∨ 10 < n := by decide
    exact hall _ (not_lt.mp hlarge)

/-- A number from 1 to 10 names a function. -/
theorem targets_eq (h : sysCallOf num = some call) :
    ¬ (num.toInt < 1 ∨ 10 < num.toInt) ∧ targets[num.toInt.toNat]? = some (some call) := by
  have hbounds : ¬ (num.toInt < 1 ∨ 10 < num.toInt) := by
    rw [← sysCallOf_eq_none_iff, h]
    exact Option.some_ne_none call
  refine ⟨hbounds, ?_⟩
  have hval : num.toInt.toNat = num.toNat := by
    rw [BitVec.toInt_eq_toNat_cond] at hbounds ⊢
    split_ifs at hbounds ⊢ <;> omega
  rw [hval]
  exact Option.join_eq_some_iff.mp h

/-- What lies above the arguments is kept by the call of a function. -/
theorem callTarget_spec (f : CCallee 52) (c : Cpu) :
    (callTarget f c).esp = c.esp ∧ (callTarget f c).ss = c.ss ∧
      Agree c.esp 52 c.mem (callTarget f c).mem := by
  have hesp : (c.pushAll [.gpr .edx, .gpr .ecx, .gpr .ebx]).esp + 12#32 = c.esp := by
    rw [Cpu.pushAll, Cpu.pushWords_eq]
    exact BitVec.sub_add_cancel _ _
  refine ⟨?_, ?_, ?_⟩
  · show (f.run _).esp + 12#32 = c.esp
    rw [f.esp, hesp]
  · show (f.run _).ss = c.ss
    rw [f.ss, Cpu.pushAll, Cpu.pushWords_eq]
  · have hkept := f.stack (c.pushAll [.gpr .edx, .gpr .ecx, .gpr .ebx])
    rw [hesp] at hkept
    exact (Cpu.agree_pushWords (by rw [List.length_map]; decide)).trans hkept

/-- The pops undo the pushes. -/
theorem sysCallRestored_eq : sysCallRestored = sysCallSaved.reverse := rfl

theorem nodup_sysCallSaved : sysCallSaved.Nodup := by decide

/-- All registers are saved but `eax`. -/
theorem mem_sysCallSaved {r : Reg} : r ∈ sysCallSaved ↔ r ≠ .gpr .eax := by
  rcases r with r | s
  · cases r <;> decide
  · cases s <;> decide

theorem get_trap {ss0 gateCs : BitVec 16} {esp0 entry : Word} (c : Cpu) (r : Reg) :
    (c.trap ss0 esp0 gateCs entry).get r = c.get r := by
  have hinterrupt : (c.interrupt ss0 esp0 gateCs entry).get r = c.get r := Cpu.get_interrupt
  rw [← hinterrupt]
  rcases r with r | s <;> rfl

/-- The end of the handler, behind code that keeps the saved registers and the frame. -/
theorem popAll_iret {ss0 gateCs : BitVec 16} {esp0 entry : Word}
    {saved : Cpu} (hsaved : (c.trap ss0 esp0 gateCs entry).pushAll sysCallSaved = saved)
    (hesp : d.esp = saved.esp) (hss : d.ss = saved.ss) (hmem : Agree d.esp 52 saved.mem d.mem) :
    (∀ r, r ≠ .gpr .eax → (d.popAll sysCallRestored).get r = c.get r) ∧
      (d.popAll sysCallRestored).iret =
        { d.popAll sysCallRestored with
          eip := c.eip, cs := c.cs, eflags := c.eflags, esp := c.esp, ss := c.ss } := by
  subst hsaved
  have hroom : 20 + 4 * sysCallSaved.length ≤ 2 ^ 32 := by decide
  obtain ⟨hregs, hback, hframe⟩ := Cpu.restore_pushAll nodup_sysCallSaved hroom hesp hmem
  rw [← sysCallRestored_eq] at hregs hback hframe
  refine ⟨fun r hr => (hregs r (mem_sysCallSaved.mpr hr)).trans (get_trap c r), ?_⟩
  have hlen : 4 * c.frame.length ≤ 20 := Nat.mul_le_mul_left 4 c.length_frame_le
  have hwords : words (d.popAll sysCallRestored).mem (d.popAll sysCallRestored).esp
      c.frame.length = c.frame.reverse := by
    rw [hback, words_congr (hframe.mono hlen)]
    exact @Cpu.words_interrupt c ss0 gateCs esp0 entry
  refine @Cpu.iret_interrupt c _ ss0 gateCs esp0 entry hwords hback ?_
  rw [Cpu.popAll_eq]
  show d.ss = _
  rw [hss, Cpu.pushAll, Cpu.pushWords_eq]
  rfl

/-- The state in which the handler calls a function. -/
def atCall (ss0 : BitVec 16) (esp0 : Word) (entry : Word) (c : Cpu) : Cpu :=
  ((c.trap ss0 esp0 kernelCs entry).pushAll sysCallSaved).pushAll
    [.gpr .edx, .gpr .ecx, .gpr .ebx]

/-- The arguments of the function are three registers of the program. -/
theorem words_atCall (ss0 : BitVec 16) (esp0 entry : Word) (c : Cpu) :
    words (atCall ss0 esp0 entry c).mem (atCall ss0 esp0 entry c).esp 3 =
      [c.gpr .ebx, c.gpr .ecx, c.gpr .edx] := by
  have hreg : ∀ r, ((c.trap ss0 esp0 kernelCs entry).pushAll sysCallSaved).get r = c.get r :=
    fun r => Cpu.get_pushWords.trans (get_trap c r)
  have hwords := @Cpu.words_pushWords ((c.trap ss0 esp0 kernelCs entry).pushAll sysCallSaved)
    [c.get (.gpr .edx), c.get (.gpr .ecx), c.get (.gpr .ebx)] (show 4 * 3 ≤ 2 ^ 32 by decide)
  rw [atCall, Cpu.pushAll]
  simp only [List.map_cons, List.map_nil, hreg]
  exact hwords

/-- The registers of the program but `eax` are the handler's until its pops. -/
theorem eax_atHandler {ss0 gateCs : BitVec 16} {esp0 entry : Word} :
    ((c.trap ss0 esp0 gateCs entry).pushAll sysCallSaved).gpr .eax = c.gpr .eax :=
  Cpu.get_pushWords.trans (get_trap c (.gpr .eax))

/-- `eax` is none of the registers that are popped, and the pops store nothing. -/
theorem popAll_restored (d : Cpu) :
    (d.popAll sysCallRestored).gpr .eax = d.gpr .eax ∧ (d.popAll sysCallRestored).mem = d.mem :=
  ⟨Cpu.get_popAll_of_notMem (r := .gpr .eax) (by decide), by rw [Cpu.popAll_eq]⟩

/-- A number that names no function. -/
theorem sysCallHandler_none (code : SysCallCode) (ss0 : BitVec 16) (esp0 entry : Word)
    (hcall : sysCallOf (c.gpr .eax) = none) :
    ∃ d : Cpu, (∀ r, r ≠ .gpr .eax → d.get r = c.get r) ∧ d.gpr .eax = -1#32 ∧
      d.mem = ((c.trap ss0 esp0 kernelCs entry).pushAll sysCallSaved).mem ∧
      sysCallHandler code (c.trap ss0 esp0 kernelCs entry) =
        { d with eip := c.eip, cs := c.cs, eflags := c.eflags, esp := c.esp, ss := c.ss } := by
  have hnum := @eax_atHandler c ss0 kernelCs esp0 entry
  generalize hsaved : (c.trap ss0 esp0 kernelCs entry).pushAll sysCallSaved = saved at *
  obtain ⟨hregs, hiret⟩ := popAll_iret (d := saved.set (-1#32) (.gpr .eax)) hsaved Cpu.esp_set
    Cpu.ss_set (by rw [Cpu.mem_set]; exact .refl _ _ _)
  obtain ⟨heax, hmem⟩ := popAll_restored (saved.set (-1#32) (.gpr .eax))
  refine ⟨_, hregs, ?_, ?_, ?_⟩
  · rw [heax]
    show Function.update saved.gpr Gpr.eax (-1#32) Gpr.eax = -1#32
    rw [Function.update_self]
  · rw [hmem, Cpu.mem_set]
  · rw [← hiret, sysCallHandler, hsaved]
    simp only [hnum, if_pos (sysCallOf_eq_none_iff.mp hcall)]

/-- A number that names one. -/
theorem sysCallHandler_some (code : SysCallCode) (ss0 : BitVec 16) (esp0 entry : Word)
    (hcall : sysCallOf (c.gpr .eax) = some call) :
    ∃ d : Cpu, (∀ r, r ≠ .gpr .eax → d.get r = c.get r) ∧
      d.gpr .eax = ((code call).run (atCall ss0 esp0 entry c)).gpr .eax ∧
      d.mem = ((code call).run (atCall ss0 esp0 entry c)).mem ∧
      sysCallHandler code (c.trap ss0 esp0 kernelCs entry) =
        { d with eip := c.eip, cs := c.cs, eflags := c.eflags, esp := c.esp, ss := c.ss } := by
  have hnum := @eax_atHandler c ss0 kernelCs esp0 entry
  rw [atCall]
  generalize hsaved : (c.trap ss0 esp0 kernelCs entry).pushAll sysCallSaved = saved at *
  obtain ⟨hbounds, htarget⟩ := targets_eq hcall
  obtain ⟨hesp, hss, hkept⟩ := callTarget_spec (code call) saved
  obtain ⟨hregs, hiret⟩ := popAll_iret hsaved hesp hss (by rw [hesp]; exact hkept)
  obtain ⟨heax, hmem⟩ := popAll_restored (callTarget (code call) saved)
  refine ⟨_, hregs, heax, hmem, ?_⟩
  rw [← hiret, sysCallHandler, hsaved]
  simp only [hnum, if_neg hbounds, htarget]

/-- Every system call returns to the program, with all registers as they were but for `eax`, which
has the value of the function that it named, called with `ebx`, `ecx` and `edx`. If it named no
function, `eax` has -1, and the kernel has written to its own stack only. -/
theorem sysCallHandler_trap (code : SysCallCode) (ss0 : BitVec 16) (esp0 entry : Word) (c : Cpu) :
    words (atCall ss0 esp0 entry c).mem (atCall ss0 esp0 entry c).esp 3 =
        [c.gpr .ebx, c.gpr .ecx, c.gpr .edx] ∧
      ∃ d : Cpu, (∀ r, r ≠ .gpr .eax → d.get r = c.get r) ∧
        (∀ call, sysCallOf (c.gpr .eax) = some call →
          d.gpr .eax = ((code call).run (atCall ss0 esp0 entry c)).gpr .eax ∧
            d.mem = ((code call).run (atCall ss0 esp0 entry c)).mem) ∧
        (sysCallOf (c.gpr .eax) = none → d.gpr .eax = -1#32 ∧
          d.mem = ((c.trap ss0 esp0 kernelCs entry).pushAll sysCallSaved).mem) ∧
        sysCallHandler code (c.trap ss0 esp0 kernelCs entry) =
          { d with eip := c.eip, cs := c.cs, eflags := c.eflags, esp := c.esp, ss := c.ss } := by
  refine ⟨words_atCall ss0 esp0 entry c, ?_⟩
  cases hcall : sysCallOf (c.gpr .eax) with
  | none =>
    obtain ⟨d, hregs, heax, hmem, hrun⟩ := sysCallHandler_none code ss0 esp0 entry hcall
    exact ⟨d, hregs, (fun call h => nomatch h), fun _ => ⟨heax, hmem⟩, hrun⟩
  | some call =>
    obtain ⟨d, hregs, heax, hmem, hrun⟩ := sysCallHandler_some code ss0 esp0 entry hcall
    refine ⟨d, hregs, fun call' h => ?_, (fun h => nomatch h), hrun⟩
    cases h
    exact ⟨heax, hmem⟩

/-! ## The wrappers -/

/-- The numbers of `ece391sysnum.h`. -/
def sysNum : SysCall → Word
  | .halt => 1#32
  | .execute => 2#32
  | .read => 3#32
  | .write => 4#32
  | .open => 5#32
  | .close => 6#32
  | .getargs => 7#32
  | .vidmap => 8#32
  | .setHandler => 9#32
  | .sigreturn => 10#32

/-- The table of the kernel and the numbers of the wrappers go together. -/
theorem sysCallOf_eq_some_iff : sysCallOf num = some call ↔ num = sysNum call := by
  constructor
  · intro h
    have hle : num.toNat ≤ 10 := by
      by_contra hlarge
      have hnone : targets[num.toNat]? = none := List.getElem?_eq_none (not_le.mp hlarge)
      rw [sysCallOf, hnone] at h
      exact nomatch h
    have hall : ∀ n ≤ 10, ∀ call ∈ (targets[n]?).join, sysNum call = BitVec.ofNat 32 n := by decide
    rw [hall _ hle call h, BitVec.ofNat_toNat, BitVec.setWidth_eq]
  · rintro rfl
    cases call <;> rfl

/-- `int $0x80` through the trap gate of the system calls, up to the `iret` of the handler. -/
def int80 (code : SysCallCode) (tss : Tss) (entry : Word) (c : Cpu) : Cpu :=
  sysCallHandler code (c.trap tss.ss0 tss.esp0 kernelCs entry)

/-- `movl offset(%esp), r` -/
def loadArg (offset : Word) (r : Gpr) (c : Cpu) : Cpu :=
  c.set (leWord c.mem (c.esp + offset)) (.gpr r)

/-- A wrapper before its `int`. -/
def beforeInt (number : Word) (c : Cpu) : Cpu :=
  let c := c.push (c.gpr .ebx)
  let c := c.set number (.gpr .eax)
  loadArg 16#32 .edx (loadArg 12#32 .ecx (loadArg 8#32 .ebx c))

/-- `DO_CALL` -/
def doCall (code : SysCallCode) (tss : Tss) (entry number : Word) (c : Cpu) : Cpu :=
  ((int80 code tss entry (beforeInt number c)).pop (.gpr .ebx)).ret

/-- The wrapper of a system call, such as `ece391_read`. -/
def wrapper (code : SysCallCode) (tss : Tss) (entry : Word) (call : SysCall) : Cpu → Cpu :=
  doCall code tss entry (sysNum call)

/-- What a caller that has been in state `c` finds when a C function has returned to it. -/
structure ReturnsTo (c d : Cpu) : Prop where
  eip : d.eip = leWord c.mem c.esp
  esp : d.esp = c.esp + 4#32
  gpr : ∀ r, r ≠ .eax → r ≠ .ecx → r ≠ .edx → d.gpr r = c.gpr r
  seg : d.seg = c.seg
  ss : d.ss = c.ss
  cs : d.cs = c.cs
  eflags : d.eflags = c.eflags

variable {ss0 : BitVec 16} {esp0 entry : Word}

/-- The registers of a wrapper before its `int`: the number and the arguments. -/
theorem beforeInt_spec (number : Word) (c : Cpu) :
    beforeInt number c = { c with
      esp := c.esp - 4#32
      mem := storeWord c.mem (c.esp - 4#32) (c.gpr .ebx)
      gpr := (beforeInt number c).gpr } ∧
    (beforeInt number c).gpr .eax = number ∧
    [(beforeInt number c).gpr .ebx, (beforeInt number c).gpr .ecx,
      (beforeInt number c).gpr .edx] = words c.mem (c.esp + 4#32) 3 ∧
    ∀ r, r ≠ .eax → r ≠ .ebx → r ≠ .ecx → r ≠ .edx → (beforeInt number c).gpr r = c.gpr r := by
  -- the store of `ebx` is below the arguments
  have harg : ∀ i, i + 4 ≤ 16 → ∀ offset : Word, c.esp - 4#32 + offset = c.esp + BitVec.ofNat 32 i →
      leWord (storeWord c.mem (c.esp - 4#32) (c.gpr .ebx)) (c.esp - 4#32 + offset) =
        leWord c.mem (c.esp + BitVec.ofNat 32 i) := by
    intro i hi offset heq
    have hkept : Agree c.esp 16 c.mem (storeWord c.mem (c.esp - 4#32) (c.gpr .ebx)) :=
      agree_storeWord (by decide)
    rw [heq]
    exact leWord_congr (hkept.part i hi)
  have hoffset : ∀ (x : Word) (i : ℕ), i + 4 ≤ 16 →
      x - 4#32 + BitVec.ofNat 32 (i + 4) = x + BitVec.ofNat 32 i := by
    intro x i hi
    rw [Nat.add_comm, BitVec.ofNat_add, ← BitVec.add_assoc]
    exact congrArg (· + _) (BitVec.sub_add_cancel _ _)
  have hregs : (beforeInt number c).gpr = Function.update (Function.update (Function.update
      (Function.update c.gpr .eax number) .ebx (leWord c.mem (c.esp + 4#32)))
      .ecx (leWord c.mem (c.esp + 8#32))) .edx (leWord c.mem (c.esp + 12#32)) := by
    have h0 := harg 4 (by decide) 8#32 (hoffset _ 4 (by decide))
    have h1 := harg 8 (by decide) 12#32 (hoffset _ 8 (by decide))
    have h2 := harg 12 (by decide) 16#32 (hoffset _ 12 (by decide))
    rw [← h0, ← h1, ← h2]
    rfl
  refine ⟨rfl, ?_, ?_, fun r ha hb hc hd => ?_⟩
  · rw [hregs]
    simp
  · rw [hregs, words, words, words, words, BitVec.add_assoc, BitVec.add_assoc]
    simp
  · rw [hregs]
    simp [ha, hb, hc, hd]

/-- A byte of what is pushed below an address, counted from the end of the 64 bytes there. -/
theorem sub_sub_add (x : Word) {k m : ℕ} (j : ℕ) (h : k + m ≤ 64) :
    x - BitVec.ofNat 32 k - BitVec.ofNat 32 m + BitVec.ofNat 32 j =
      x - 64#32 + BitVec.ofNat 32 (64 - k - m + j) := by
  have hsplit : (64#32 : Word) = BitVec.ofNat 32 k + BitVec.ofNat 32 m +
      BitVec.ofNat 32 (64 - k - m) := by
    rw [← BitVec.ofNat_add, ← BitVec.ofNat_add, (by omega : k + m + (64 - k - m) = 64)]
  rw [hsplit, BitVec.ofNat_add, ← BitVec.add_assoc, ← BitVec.sub_sub, ← BitVec.sub_sub,
    BitVec.sub_add_cancel]

/-- The pushes of the kernel are in the 64 bytes of its stack. -/
theorem mem_atCall_of_outside (hring : Cpu.rpl c.cs ≠ 0#2) {a : Word}
    (ha : ∀ i < 64, a ≠ esp0 - 64#32 + BitVec.ofNat 32 i) :
    (atCall ss0 esp0 entry c).mem a = c.mem a := by
  have hframe : c.frame.length = 5 := by
    rw [Cpu.frame, if_neg hring]
    rfl
  -- every push is one of 16 words
  have hpushes : ∀ (d : Cpu) (vs : List Word) (k : ℕ), d.esp = esp0 - BitVec.ofNat 32 k →
      k + 4 * vs.length ≤ 64 → (d.pushWords vs).mem a = d.mem a := by
    intro d vs k hesp hk
    apply Cpu.mem_pushWords_of_outside
    intro j hj heq
    refine ha (64 - k - 4 * vs.length + j) (by omega) (heq.trans ?_)
    rw [Cpu.pushWords_eq, ← sub_sub_add _ _ hk, ← hesp]
  have hstack : c.handlerStack ss0 esp0 = { c with ss := ss0, esp := esp0 } := if_neg hring
  generalize htrap : c.trap ss0 esp0 kernelCs entry = trapped
  have hesp : trapped.esp = esp0 - BitVec.ofNat 32 20 := by
    rw [← htrap]
    show ((c.handlerStack ss0 esp0).pushWords c.frame).esp = _
    rw [hstack, Cpu.pushWords_eq, hframe]
  have hmem : trapped.mem a = c.mem a := by
    rw [← htrap]
    show ((c.handlerStack ss0 esp0).pushWords c.frame).mem a = _
    rw [hstack]
    exact hpushes _ _ 0 (BitVec.sub_zero _).symm (by rw [hframe]; decide)
  rw [atCall, htrap, Cpu.pushAll, hpushes _ _ 52 ?_ (by rw [List.length_map]; decide), Cpu.pushAll,
    hpushes _ _ 20 hesp (by rw [List.length_map]; decide), hmem]
  rw [Cpu.pushAll, Cpu.pushWords_eq]
  show trapped.esp - BitVec.ofNat 32 32 = _
  rw [hesp, BitVec.sub_sub, ← BitVec.ofNat_add]

/-- The state in which the kernel calls the function of a wrapper. -/
def atKernelCall (tss : Tss) (entry : Word) (call : SysCall) (c : Cpu) : Cpu :=
  atCall tss.ss0 tss.esp0 entry (beforeInt (sysNum call) c)

/-- The arguments of a wrapper are those of the function. -/
theorem words_atKernelCall (tss : Tss) (entry : Word) (call : SysCall) (c : Cpu) :
    words (atKernelCall tss entry call c).mem (atKernelCall tss entry call c).esp 3 =
      words c.mem (c.esp + 4#32) 3 :=
  (words_atCall _ _ _ _).trans (beforeInt_spec (sysNum call) c).2.2.1

/-- A call of a wrapper by a program is a call of the kernel's function: it gets the three words the
program has passed, its value is returned, and the program goes on behind its call with its own
stack pointer, registers and flags. The kernel's stack must not be the program's, and the function
must not write to the two words that the call has on the program's stack. -/
theorem doCall_returns (code : SysCallCode) (tss : Tss) (entry : Word) (call : SysCall) (c : Cpu)
    (hring : Cpu.rpl c.cs ≠ 0#2)
    (hstack : ∀ j < 8, ∀ i < 64,
      c.esp - 4#32 + BitVec.ofNat 32 j ≠ tss.esp0 - 64#32 + BitVec.ofNat 32 i)
    (hkept : Agree (c.esp - 4#32) 8 (atKernelCall tss entry call c).mem
      ((code call).run (atKernelCall tss entry call c)).mem) :
    words (atKernelCall tss entry call c).mem (atKernelCall tss entry call c).esp 3 =
        words c.mem (c.esp + 4#32) 3 ∧
      ReturnsTo c (wrapper code tss entry call c) ∧
      (wrapper code tss entry call c).gpr .eax =
        ((code call).run (atKernelCall tss entry call c)).gpr .eax ∧
      (wrapper code tss entry call c).mem =
        ((code call).run (atKernelCall tss entry call c)).mem := by
  obtain ⟨hbefore, hnum, -, hregs⟩ := beforeInt_spec (sysNum call) c
  have hargs := words_atKernelCall tss entry call c
  rw [atKernelCall] at hargs hkept ⊢
  -- the two words on the program's stack: the saved `ebx`, and the return address
  have htop : Agree (c.esp - 4#32) 8 (beforeInt (sysNum call) c).mem
      (atCall tss.ss0 tss.esp0 entry (beforeInt (sysNum call) c)).mem := by
    intro j hj
    refine mem_atCall_of_outside ?_ fun i hi => hstack j hj i hi
    rw [hbefore]
    exact hring
  obtain ⟨d, hsame, heax, hmem, hrun⟩ := sysCallHandler_some code tss.ss0 tss.esp0 entry
    (sysCallOf_eq_some_iff.mpr hnum)
  generalize atCall tss.ss0 tss.esp0 entry (beforeInt (sysNum call) c) = called at *
  have hbase : c.esp - 4#32 + BitVec.ofNat 32 4 = c.esp := BitVec.sub_add_cancel _ _
  have hkeep : Agree (c.esp - 4#32) 8 (storeWord c.mem (c.esp - 4#32) (c.gpr .ebx)) d.mem := by
    rw [hbefore] at htop
    rw [hmem]
    exact htop.trans hkept
  have hebx : leWord d.mem (c.esp - 4#32) = c.gpr .ebx := by
    rw [leWord_congr (hkeep.mono (by decide)), leWord_storeWord]
  have hreturn : leWord d.mem c.esp = leWord c.mem c.esp := by
    have hpart := hkeep.part (m := 4) 4 le_rfl
    rw [hbase] at hpart
    exact leWord_congr ((agree_storeWord (by decide)).trans hpart)
  have hcallee : wrapper code tss entry call c =
      { d with
        eip := leWord d.mem c.esp
        esp := c.esp + 4#32
        gpr := Function.update d.gpr .ebx (leWord d.mem (c.esp - 4#32))
        ss := c.ss, cs := c.cs, eflags := c.eflags } := by
    have hesp : (beforeInt (sysNum call) c).esp = c.esp - 4#32 := rfl
    have hback : (beforeInt (sysNum call) c).esp + 4#32 = c.esp := by
      rw [hesp, BitVec.sub_add_cancel]
    rw [wrapper, doCall, int80, hrun]
    simp only [Cpu.pop, Cpu.set, Cpu.ret, hback]
    rfl
  rw [hcallee]
  refine ⟨hargs, ⟨hreturn, rfl, fun r ha hc hd => ?_, ?_, rfl, rfl, rfl⟩, ?_, hmem⟩
  · show Function.update d.gpr Gpr.ebx (leWord d.mem (c.esp - 4#32)) r = c.gpr r
    by_cases hb : r = .ebx
    · rw [hb, Function.update_self, hebx]
    · have hget : d.gpr r = (beforeInt (sysNum call) c).gpr r :=
        hsame (.gpr r) (by simpa using ha)
      rw [Function.update_of_ne hb, hget, hregs r ha hb hc hd]
  · -- the segment registers of the program
    funext s
    have hget : (d.seg s).setWidth 32 = (c.seg s).setWidth 32 :=
      hsame (.seg s) (by simp)
    have hlow := congrArg (BitVec.setWidth 16) hget
    rwa [BitVec.setWidth_setWidth_of_le _ (by decide), BitVec.setWidth_setWidth_of_le _ (by decide),
      BitVec.setWidth_eq, BitVec.setWidth_eq] at hlow
  · show Function.update d.gpr Gpr.ebx (leWord d.mem (c.esp - 4#32)) Gpr.eax = _
    rw [Function.update_of_ne (by decide), heax]

/-- Functions that return their first argument. -/
def echoCode : SysCallCode := fun _ =>
  { run := fun c => c.set (leWord c.mem c.esp) (.gpr .eax)
    esp := fun _ => Cpu.esp_set
    ss := fun _ => Cpu.ss_set
    stack := fun c => by rw [Cpu.mem_set]; exact .refl _ _ _ }

/-- A program that calls a wrapper with 5, 6 and 7. -/
def callingCpu : Cpu :=
  ({ zeroCpu with cs := 0x23#16, ss := 0x2B#16, esp := 0x083FFFFC#32 } : Cpu).pushWords
    [7#32, 6#32, 5#32, 0x08048010#32]

theorem doCall_returns_sample :
    ReturnsTo callingCpu
        (wrapper echoCode { esp0 := 0x7FFFFC#32, ss0 := kernelDs } 0xC0#32 .close callingCpu) ∧
      (wrapper echoCode { esp0 := 0x7FFFFC#32, ss0 := kernelDs } 0xC0#32 .close callingCpu).gpr
        .eax = 5#32 := by
  obtain ⟨hargs, hback, heax, -⟩ := doCall_returns echoCode
    { esp0 := 0x7FFFFC#32, ss0 := kernelDs } 0xC0#32 .close callingCpu (by decide) (by decide)
    (by rw [echoCode, Cpu.mem_set]; exact .refl _ _ _)
  refine ⟨hback, heax.trans ?_⟩
  have hpassed : words callingCpu.mem (callingCpu.esp + 4#32) 3 = [5#32, 6#32, 7#32] := by
    rfl
  rw [hpassed, words, List.cons.injEq] at hargs
  exact hargs.1

/-! ## The end of a program -/

/-- `_start` behind its call of `main`, up to the call of `ece391_halt`. -/
def afterMain (returnAddress : Word) (c : Cpu) : Cpu :=
  c.pushWords [0#32, 0#32, c.gpr .eax, returnAddress]

/-- A program whose `main` returns a value calls `halt` with it. -/
theorem words_start (tss : Tss) (entry returnAddress : Word) (c : Cpu) :
    words (atKernelCall tss entry .halt (afterMain returnAddress c)).mem
        (atKernelCall tss entry .halt (afterMain returnAddress c)).esp 3 =
      [c.gpr .eax, 0#32, 0#32] := by
  have hwords : words (afterMain returnAddress c).mem (afterMain returnAddress c).esp 4 =
      [returnAddress, c.gpr .eax, 0#32, 0#32] :=
    Cpu.words_pushWords (show 4 * 4 ≤ 2 ^ 32 by decide)
  rw [words, List.cons.injEq] at hwords
  rw [words_atKernelCall]
  exact hwords.2

end

end Ece391
