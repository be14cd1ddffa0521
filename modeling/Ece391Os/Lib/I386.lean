import Ece391Os.Lib.Memory
import Mathlib.Algebra.Group.Nat.Defs
import Mathlib.Data.List.Nodup

/-!
# The stack of an i386

The registers of an i386 that compiled code and interrupt handlers use, and the instructions that
move them to and from the stack.

* `storeWord` is the store that goes with `leWord`, and `Agree a n mem mem'` the frame condition:
  the `n` bytes from `a` on are the same in both memories. `words mem a n` are the `n` words from
  `a` on.
* `Cpu.pushWords` and `Cpu.popAll`: what is popped off a stack whose words are known (`get_popAll`),
  and what a stack holds after pushes (`words_pushWords`). `popAll_pushAll` puts the two together
  for code that saves registers, runs, and restores them.
* `Cpu.interrupt` and `Cpu.iret`: the frame the processor pushes, and `iret_interrupt`: the
  interrupted code goes on if the frame is intact.
* `CFunction` and `CBody` are compiled C code under the calling convention, called or entered
  without a call.
-/

namespace I386

/-- A byte-addressed memory. -/
abbrev Memory := Word → Byte

/-! ## Words in memory -/

/-- Store a word at address `a`, the least significant byte first. -/
def storeWord (mem : Memory) (a v : Word) : Memory := fun b =>
  if (b - a).toNat < 4 then v.extractLsb' (8 * (b - a).toNat) 8 else mem b

/-- The `n` bytes from `a` on are the same. -/
def Agree (a : Word) (n : ℕ) (mem mem' : Memory) : Prop :=
  ∀ j < n, mem' (a + BitVec.ofNat 32 j) = mem (a + BitVec.ofNat 32 j)

/-- The `n` words from `a` on. -/
def words (mem : Memory) (a : Word) : ℕ → List Word
  | 0 => []
  | n + 1 => leWord mem a :: words mem (a + 4#32) n

section Words

variable {mem mem' mem'' : Memory} {a v : Word} {m n : ℕ}

/-- A word splits into its bytes. -/
theorem append_bytes (v : Word) :
    v.extractLsb' 24 8 ++ v.extractLsb' 16 8 ++ v.extractLsb' 8 8 ++ v.extractLsb' 0 8 = v := by
  rw [BitVec.extractLsb'_append_extractLsb'_eq_extractLsb' (by rfl),
    BitVec.extractLsb'_append_extractLsb'_eq_extractLsb' (by rfl),
    BitVec.extractLsb'_append_extractLsb'_eq_extractLsb' (by rfl)]
  exact BitVec.extractLsb'_eq_self

@[simp]
theorem leWord_storeWord : leWord (storeWord mem a v) a = v := by
  have hbyte : ∀ j < 4, storeWord mem a v (a + BitVec.ofNat 32 j) = v.extractLsb' (8 * j) 8 := by
    intro j hj
    have hdist : (a + BitVec.ofNat 32 j - a).toNat = j := by
      rw [BitVec.add_comm, BitVec.add_sub_cancel, BitVec.toNat_ofNat]
      omega
    rw [storeWord, hdist, if_pos hj]
  have h0 := hbyte 0 (by decide)
  rw [BitVec.add_zero] at h0
  rw [leWord, hbyte 3 (by decide), hbyte 2 (by decide), hbyte 1 (by decide), h0]
  exact append_bytes v

theorem Agree.refl (mem : Memory) (a : Word) (n : ℕ) : Agree a n mem mem := fun _ _ => rfl

theorem Agree.trans (h : Agree a n mem mem') (h' : Agree a n mem' mem'') : Agree a n mem mem'' :=
  fun j hj => (h' j hj).trans (h j hj)

theorem Agree.mono (h : Agree a n mem mem') (hm : m ≤ n) : Agree a m mem mem' :=
  fun j hj => h j (lt_of_lt_of_le hj hm)

/-- Memories that agree on a range agree on every part of it. -/
theorem Agree.part (h : Agree a n mem mem') (i : ℕ) (hm : i + m ≤ n) :
    Agree (a + BitVec.ofNat 32 i) m mem mem' := by
  intro j hj
  rw [BitVec.add_assoc, ← BitVec.ofNat_add]
  exact h (i + j) (by omega)

theorem leWord_congr (h : Agree a 4 mem mem') : leWord mem' a = leWord mem a := by
  have h0 := h 0 (by decide)
  rw [BitVec.add_zero] at h0
  rw [leWord, leWord, h0]
  -- the three bytes behind the first
  have h1 : mem' (a + 1#32) = mem (a + 1#32) := h 1 (by decide)
  have h2 : mem' (a + 2#32) = mem (a + 2#32) := h 2 (by decide)
  have h3 : mem' (a + 3#32) = mem (a + 3#32) := h 3 (by decide)
  rw [h1, h2, h3]

theorem words_congr (h : Agree a (4 * n) mem mem') : words mem' a n = words mem a n := by
  induction n generalizing a with
  | zero => rfl
  | succ n ih =>
    have hfirst : Agree a 4 mem mem' := fun j hj => h j (by omega)
    have hrest : Agree (a + 4#32) (4 * n) mem mem' := h.part 4 (by omega)
    rw [words, words, leWord_congr hfirst, ih hrest]

@[simp]
theorem length_words (mem : Memory) (a : Word) (n : ℕ) : (words mem a n).length = n := by
  induction n generalizing a with
  | zero => rfl
  | succ n ih => rw [words, List.length_cons, ih]

/-- A range of words splits at any point. -/
theorem words_add (mem : Memory) (a : Word) (m n : ℕ) :
    words mem a (m + n) = words mem a m ++ words mem (a + BitVec.ofNat 32 (4 * m)) n := by
  induction m generalizing a with
  | zero => rw [Nat.zero_add, Nat.mul_zero, BitVec.add_zero, words, List.nil_append]
  | succ m ih =>
    have haddr : a + 4#32 + BitVec.ofNat 32 (4 * m) = a + BitVec.ofNat 32 (4 * (m + 1)) := by
      rw [BitVec.add_assoc, ← BitVec.ofNat_add, Nat.mul_succ, Nat.add_comm 4]
    rw [Nat.succ_add_eq_add_succ, Nat.add_succ, words, words, ih, haddr, List.cons_append]

/-- A word stored below an address changes nothing from there on. -/
theorem agree_storeWord (hn : n + 4 ≤ 2 ^ 32) : Agree a n mem (storeWord mem (a - 4#32) v) := by
  intro j hj
  have hadd : ∀ x : Word, a + x - (a - 4#32) = x + 4#32 := by
    intro x
    bv_omega
  have hdist : ¬ (a + BitVec.ofNat 32 j - (a - 4#32)).toNat < 4 := by
    rw [hadd, ← BitVec.ofNat_add, BitVec.toNat_ofNat]
    omega
  exact if_neg hdist

end Words

/-! ## Registers -/

/-- The general registers but the stack pointer. -/
inductive Gpr
  | eax
  | ecx
  | edx
  | ebx
  | ebp
  | esi
  | edi
  deriving DecidableEq

/-- The data segment registers. -/
inductive SegReg
  | ds
  | es
  deriving DecidableEq

/-- A register that an instruction pushes or pops. -/
inductive Reg
  | gpr (r : Gpr)
  | seg (s : SegReg)
  deriving DecidableEq

/-- The state of the processor and its memory. -/
structure Cpu where
  gpr : Gpr → Word
  seg : SegReg → BitVec 16
  esp : Word
  ss : BitVec 16
  eip : Word
  cs : BitVec 16
  eflags : Word
  mem : Memory

namespace Cpu

/-- The value an instruction pushes for a register; a selector is extended with zeros. -/
def get (c : Cpu) : Reg → Word
  | .gpr r => c.gpr r
  | .seg s => (c.seg s).setWidth 32

/-- What an instruction that pops into a register assigns. -/
def set (c : Cpu) (v : Word) : Reg → Cpu
  | .gpr r => { c with gpr := Function.update c.gpr r v }
  | .seg s => { c with seg := Function.update c.seg s (v.setWidth 16) }

/-- `push` of a value. -/
def push (c : Cpu) (v : Word) : Cpu :=
  { c with esp := c.esp - 4#32, mem := storeWord c.mem (c.esp - 4#32) v }

/-- `pop` into a register. -/
def pop (c : Cpu) (r : Reg) : Cpu :=
  ({ c with esp := c.esp + 4#32 }).set (leWord c.mem c.esp) r

/-- Push values, the first one of the list first. -/
def pushWords : Cpu → List Word → Cpu
  | c, [] => c
  | c, v :: vs => (c.push v).pushWords vs

/-- Push registers, the first one of the list first. -/
def pushAll (c : Cpu) (rs : List Reg) : Cpu := c.pushWords (rs.map c.get)

/-- Pop registers, the first one of the list first. -/
def popAll : Cpu → List Reg → Cpu
  | c, [] => c
  | c, r :: rs => (c.pop r).popAll rs

variable {c c' d : Cpu} {v : Word} {vs : List Word} {r r' : Reg} {rs : List Reg} {n : ℕ}

/-- A register takes what was pushed for it. -/
@[simp]
theorem get_set_get (c d : Cpu) (r : Reg) : (c.set (d.get r) r).get r = d.get r := by
  rcases r with r | s
  · simp [get, set]
  · simp [get, set, BitVec.setWidth_setWidth_of_le]

theorem get_set_of_ne (h : r' ≠ r) : (c.set v r).get r' = c.get r' := by
  rcases r with r | s <;> rcases r' with r' | s' <;> simp_all [get, set]

@[simp]
theorem esp_set : (c.set v r).esp = c.esp := by rcases r with r | s <;> rfl

@[simp]
theorem ss_set : (c.set v r).ss = c.ss := by rcases r with r | s <;> rfl

@[simp]
theorem mem_set : (c.set v r).mem = c.mem := by rcases r with r | s <;> rfl

/-! ## Pushing -/

/-- A push writes below the stack pointer. -/
theorem agree_push (hn : n + 4 ≤ 2 ^ 32) : Agree c.esp n c.mem (c.push v).mem :=
  agree_storeWord hn

/-- Pushes change the stack pointer and memory only. -/
theorem pushWords_eq (c : Cpu) (vs : List Word) : c.pushWords vs =
    { c with
      esp := c.esp - BitVec.ofNat 32 (4 * vs.length)
      mem := (c.pushWords vs).mem } := by
  induction vs generalizing c with
  | nil => simp [pushWords]
  | cons v vs ih =>
    rw [pushWords, ih, push, List.length_cons, Nat.mul_succ, Nat.add_comm (4 * _),
      BitVec.ofNat_add, BitVec.sub_sub]

/-- What lies above the stack pointer stays. -/
theorem agree_pushWords (hn : n + 4 * vs.length ≤ 2 ^ 32) :
    Agree c.esp n c.mem (c.pushWords vs).mem := by
  induction vs generalizing c n with
  | nil => exact .refl _ _ _
  | cons v vs ih =>
    rw [List.length_cons] at hn
    have hrest : Agree (c.push v).esp (n + 4) (c.push v).mem (c.pushWords (v :: vs)).mem :=
      ih (by omega)
    have hpart := hrest.part (m := n) 4 (by omega)
    rw [push, BitVec.sub_add_cancel] at hpart
    exact (agree_push (by omega)).trans hpart

/-- Pushes write to the words they leave on the stack only. -/
theorem mem_pushWords_of_outside {a : Word}
    (ha : ∀ j < 4 * vs.length, a ≠ (c.pushWords vs).esp + BitVec.ofNat 32 j) :
    (c.pushWords vs).mem a = c.mem a := by
  induction vs generalizing c with
  | nil => rfl
  | cons v vs ih =>
    rw [List.length_cons] at ha
    have hbase : ((c.push v).pushWords vs).esp + BitVec.ofNat 32 (4 * vs.length) =
        c.esp - 4#32 := by
      rw [pushWords_eq, BitVec.sub_add_cancel]
      rfl
    rw [pushWords, ih fun j hj => ha j (by omega)]
    -- the first word is the highest one
    refine if_neg fun hlt => ha (4 * vs.length + (a - (c.esp - 4#32)).toNat) (by omega) ?_
    show a = ((c.push v).pushWords vs).esp + _
    rw [BitVec.ofNat_add, ← BitVec.add_assoc, hbase, BitVec.ofNat_toNat, BitVec.setWidth_eq,
      BitVec.add_comm, BitVec.sub_add_cancel]

/-- The words a list of pushes leaves on the stack, from the stack pointer up. -/
theorem words_pushWords (hlen : 4 * vs.length ≤ 2 ^ 32) :
    words (c.pushWords vs).mem (c.pushWords vs).esp vs.length = vs.reverse := by
  induction vs generalizing c with
  | nil => rfl
  | cons v vs ih =>
    rw [List.length_cons] at hlen ⊢
    -- the first word pushed is the last one
    have haddr : ((c.push v).pushWords vs).esp + BitVec.ofNat 32 (4 * vs.length) =
        (c.push v).esp := by
      rw [pushWords_eq, BitVec.sub_add_cancel]
    have hlast : leWord ((c.push v).pushWords vs).mem (c.push v).esp = v := by
      rw [leWord_congr (agree_pushWords (by omega)), push, leWord_storeWord]
    rw [pushWords, words_add, ih (by omega), haddr, words, hlast, List.reverse_cons]
    rfl

theorem get_pushWords : (c.pushWords vs).get r = c.get r := by
  rw [pushWords_eq]
  rcases r with r | s <;> rfl

/-! ## Popping -/

/-- Pops change the stack pointer and the registers that are popped only. -/
theorem popAll_eq (c : Cpu) (rs : List Reg) : c.popAll rs =
    { c with
      esp := c.esp + BitVec.ofNat 32 (4 * rs.length)
      gpr := (c.popAll rs).gpr
      seg := (c.popAll rs).seg } := by
  induction rs generalizing c with
  | nil => simp [popAll]
  | cons r rs ih =>
    rw [popAll, ih, List.length_cons, Nat.mul_succ, Nat.add_comm (4 * _), BitVec.ofNat_add,
      ← BitVec.add_assoc]
    rcases r with r | s <;> rfl

theorem get_popAll_of_notMem (h : r ∉ rs) : (c.popAll rs).get r = c.get r := by
  induction rs generalizing c with
  | nil => rfl
  | cons r' rs ih =>
    rw [List.mem_cons, not_or] at h
    rw [popAll, ih h.2, pop, get_set_of_ne h.1]
    rcases r with r | s <;> rfl

/-- A stack that holds the registers of `d` restores them. -/
theorem get_popAll (hnodup : rs.Nodup)
    (hwords : words c.mem c.esp rs.length = rs.map d.get) (hr : r ∈ rs) :
    (c.popAll rs).get r = d.get r := by
  induction rs generalizing c with
  | nil => exact absurd hr List.not_mem_nil
  | cons r' rs ih =>
    rw [List.length_cons, words, List.map_cons, List.cons.injEq] at hwords
    obtain ⟨hfirst, hrest⟩ := hwords
    rw [List.nodup_cons] at hnodup
    rw [popAll]
    rcases List.mem_cons.mp hr with rfl | hr
    · -- no later pop overwrites the first register
      rw [get_popAll_of_notMem hnodup.1, pop, hfirst, get_set_get]
    · refine ih hnodup.2 ?_ hr
      rw [pop, mem_set, esp_set]
      exact hrest

/-- Registers that are pushed are restored by popping them in the opposite order, if the stack has
been kept in between. -/
theorem popAll_pushAll (hnodup : rs.Nodup) (hlen : 4 * rs.length ≤ 2 ^ 32)
    (hesp : c'.esp = (c.pushAll rs).esp)
    (hmem : Agree c'.esp (4 * rs.length) (c.pushAll rs).mem c'.mem) (hr : r ∈ rs) :
    (c'.popAll rs.reverse).get r = c.get r := by
  refine get_popAll (List.nodup_reverse.mpr hnodup) ?_ (List.mem_reverse.mpr hr)
  rw [List.length_reverse, words_congr hmem, hesp, List.map_reverse, pushAll,
    ← words_pushWords (by rwa [List.length_map]), List.length_map]

/-- Code that pushes registers, runs, and pops them in the opposite order: the registers are
restored, the stack pointer is back, and what lies above it is kept as far as the code in between
has kept it. -/
theorem restore_pushAll {m : ℕ} (hnodup : rs.Nodup) (hlen : m + 4 * rs.length ≤ 2 ^ 32)
    (hesp : c'.esp = (c.pushAll rs).esp)
    (hmem : Agree c'.esp (4 * rs.length + m) (c.pushAll rs).mem c'.mem) :
    (∀ r ∈ rs, (c'.popAll rs.reverse).get r = c.get r) ∧ (c'.popAll rs.reverse).esp = c.esp ∧
      Agree c.esp m c.mem (c'.popAll rs.reverse).mem := by
  have hbase : c'.esp + BitVec.ofNat 32 (4 * rs.length) = c.esp := by
    rw [hesp, pushAll, pushWords_eq, List.length_map]
    exact BitVec.sub_add_cancel _ _
  refine ⟨fun r hr => ?_, ?_, ?_⟩
  · exact popAll_pushAll hnodup (by omega) hesp (hmem.mono (Nat.le_add_right _ _)) hr
  · rw [popAll_eq, List.length_reverse]
    exact hbase
  · -- kept by the pushes, then by the code in between
    have hpush : Agree c.esp m c.mem (c.pushAll rs).mem :=
      agree_pushWords (by rwa [List.length_map])
    have hkept := hmem.part (m := m) (4 * rs.length) le_rfl
    rw [hbase] at hkept
    rw [popAll_eq]
    exact hpush.trans hkept

/-! ## Interrupts -/

/-- The privilege level of a selector. -/
def rpl (selector : BitVec 16) : BitVec 2 := selector.setWidth 2

/-- What the processor pushes when it interrupts code; `ss` and `esp` only for a change of the
privilege level. -/
def frame (c : Cpu) : List Word :=
  (if rpl c.cs = 0#2 then [] else [c.ss.setWidth 32, c.esp]) ++
    [c.eflags, c.cs.setWidth 32, c.eip]

theorem length_frame_le (c : Cpu) : c.frame.length ≤ 5 := by
  unfold frame
  split_ifs <;> simp

/-- The stack a handler in ring 0 runs on: that of the interrupted code if it was in ring 0 too,
else the one the task state names. -/
def handlerStack (c : Cpu) (ss0 : BitVec 16) (esp0 : Word) : Cpu :=
  if rpl c.cs = 0#2 then c else { c with ss := ss0, esp := esp0 }

/-- An interrupt through a gate to ring 0. -/
def interrupt (c : Cpu) (ss0 : BitVec 16) (esp0 : Word) (gateCs : BitVec 16) (entry : Word) : Cpu :=
  { (c.handlerStack ss0 esp0).pushWords c.frame with
    cs := gateCs, eip := entry, eflags := c.eflags &&& ~~~0x200#32 }

/-- An interrupt through a trap gate, which leaves the interrupt flag. -/
def trap (c : Cpu) (ss0 : BitVec 16) (esp0 : Word) (gateCs : BitVec 16) (entry : Word) : Cpu :=
  { c.interrupt ss0 esp0 gateCs entry with eflags := c.eflags }

/-- `iret` in ring 0. -/
def iret (c : Cpu) : Cpu :=
  let back := { c with
    eip := leWord c.mem c.esp
    cs := (leWord c.mem (c.esp + 4#32)).setWidth 16
    eflags := leWord c.mem (c.esp + 8#32)
    esp := c.esp + 12#32 }
  if rpl back.cs = 0#2 then back
  else { back with
    esp := leWord c.mem (c.esp + 12#32), ss := (leWord c.mem (c.esp + 16#32)).setWidth 16 }

theorem get_interrupt {ss0 gateCs : BitVec 16} {esp0 entry : Word} :
    (c.interrupt ss0 esp0 gateCs entry).get r = c.get r := by
  have hstack : (c.handlerStack ss0 esp0).get r = c.get r := by
    unfold handlerStack
    split_ifs <;> rfl
  rw [← hstack]
  exact get_pushWords

/-- The frame lies where the stack pointer of the handler starts. -/
theorem words_interrupt {ss0 gateCs : BitVec 16} {esp0 entry : Word} :
    words (c.interrupt ss0 esp0 gateCs entry).mem (c.interrupt ss0 esp0 gateCs entry).esp
      c.frame.length = c.frame.reverse := by
  have hlen := c.length_frame_le
  exact words_pushWords (by omega)

/-- The interrupted code goes on where it was, if the handler has kept its frame. -/
theorem iret_interrupt {ss0 gateCs : BitVec 16} {esp0 entry : Word}
    (hwords : words c'.mem c'.esp c.frame.length = c.frame.reverse)
    (hesp : c'.esp = (c.interrupt ss0 esp0 gateCs entry).esp)
    (hss : c'.ss = (c.interrupt ss0 esp0 gateCs entry).ss) :
    c'.iret =
      { c' with eip := c.eip, cs := c.cs, eflags := c.eflags, esp := c.esp, ss := c.ss } := by
  have hsel : ∀ s : BitVec 16, ((s.setWidth 32).setWidth 16 : BitVec 16) = s := fun s => by
    simp [BitVec.setWidth_setWidth_of_le]
  have hesp₁ : (c.interrupt ss0 esp0 gateCs entry).esp =
      (c.handlerStack ss0 esp0).esp - BitVec.ofNat 32 (4 * c.frame.length) := by
    unfold interrupt
    rw [pushWords_eq]
  have hss₁ : (c.interrupt ss0 esp0 gateCs entry).ss = (c.handlerStack ss0 esp0).ss := by
    unfold interrupt
    rw [pushWords_eq]
  rw [hesp₁, handlerStack] at hesp
  rw [hss₁, handlerStack] at hss
  by_cases hring : rpl c.cs = 0#2
  · -- kernel code goes on with its own stack
    simp only [frame, if_pos hring, List.nil_append, List.length_cons, List.length_nil, words,
      List.reverse_cons, List.reverse_nil, List.cons.injEq, List.cons_append,
      BitVec.add_assoc] at hwords hesp hss
    -- three words above the handler's stack pointer
    obtain ⟨heip, hcs, hflags, -⟩ := hwords
    have hback : c'.esp + 12#32 = c.esp := by
      rw [hesp]
      exact BitVec.sub_add_cancel _ _
    have hflags' : leWord c'.mem (c'.esp + 8#32) = c.eflags := hflags
    rw [iret]
    simp only [heip, hcs, hflags', hsel, if_pos hring, hback, ← hss]
  · -- user code gets the stack back that the processor has left
    simp only [frame, if_neg hring, List.length_cons, List.length_nil, words,
      List.reverse_cons, List.reverse_nil, List.cons.injEq, List.cons_append, List.nil_append,
      BitVec.add_assoc] at hwords
    obtain ⟨heip, hcs, hflags, hesp', hss', -⟩ := hwords
    have hflags' : leWord c'.mem (c'.esp + 8#32) = c.eflags := hflags
    have hstack : leWord c'.mem (c'.esp + 12#32) = c.esp := hesp'
    have hseg : leWord c'.mem (c'.esp + 16#32) = c.ss.setWidth 32 := hss'
    rw [iret]
    simp only [heip, hcs, hflags', hstack, hseg, hsel, if_neg hring]

/-! ## Compiled code -/

/-- The prologue of a C function: `push ebp` and `mov ebp, esp`. -/
def enter (c : Cpu) : Cpu :=
  let c := c.push (c.gpr .ebp)
  { c with gpr := Function.update c.gpr .ebp c.esp }

/-- `leave`: `mov esp, ebp` and `pop ebp`. -/
def leave (c : Cpu) : Cpu := ({ c with esp := c.gpr .ebp }).pop (.gpr .ebp)

theorem get_iret : c.iret.get r = c.get r := by
  simp only [iret]
  split_ifs <;> rcases r with r | s <;> rfl

@[simp]
theorem mem_iret : c.iret.mem = c.mem := by
  simp only [iret]
  split_ifs <;> rfl

theorem pushWords_set : (c.set v r).pushWords vs = (c.pushWords vs).set v r := by
  induction vs generalizing c with
  | nil => rfl
  | cons w vs ih =>
    have hpush : (c.set v r).push w = (c.push w).set v r := by rcases r with r | s <;> rfl
    rw [pushWords, pushWords, hpush, ih]

/-- The processor does not look at `eax` when it interrupts code. -/
theorem interrupt_set_eax {ss0 gateCs : BitVec 16} {esp0 entry : Word} :
    (c.set v (.gpr .eax)).interrupt ss0 esp0 gateCs entry =
      (c.interrupt ss0 esp0 gateCs entry).set v (.gpr .eax) := by
  have hstack : (c.set v (.gpr .eax)).handlerStack ss0 esp0 =
      (c.handlerStack ss0 esp0).set v (.gpr .eax) := by
    unfold handlerStack
    show (if rpl c.cs = 0#2 then _ else _) = _
    split_ifs <;> rfl
  have hframe : (c.set v (.gpr .eax)).frame = c.frame := rfl
  rw [interrupt, interrupt, hstack, hframe, pushWords_set]
  rfl

theorem ebp_enter : c.enter.gpr .ebp = c.esp - 4#32 := by
  unfold enter
  simp [push]

theorem mem_enter : c.enter.mem = storeWord c.mem (c.esp - 4#32) (c.gpr .ebp) := rfl

/-- Nor does a prologue. -/
theorem enter_set_eax : (c.set v (.gpr .eax)).enter = c.enter.set v (.gpr .eax) := by
  have hcomm := Function.update_comm (show Gpr.eax ≠ .ebp by decide) v (c.esp - 4#32) c.gpr
  simp only [enter, set, push, hcomm]
  rfl

/-- `ret` -/
def ret (c : Cpu) : Cpu := { c with eip := leWord c.mem c.esp, esp := c.esp + 4#32 }

end Cpu

/-- A C function as its caller sees it: it may change `eax`, `ecx` and `edx`, and its epilogue
restores the other registers. It does not write to the `n` bytes of its callers' stack. -/
structure CFunction (n : ℕ) where
  run : Cpu → Cpu
  gpr : ∀ c r, r ≠ .eax → r ≠ .ecx → r ≠ .edx → (run c).gpr r = c.gpr r
  seg : ∀ c, (run c).seg = c.seg
  esp : ∀ c, (run c).esp = c.esp
  ss : ∀ c, (run c).ss = c.ss
  stack : ∀ c, Agree c.esp n c.mem (run c).mem

/-- The statements of a C function between its prologue and a point that is not its epilogue. They
keep the frame pointer; the registers that the epilogue restores may be in use. The caller's `eax`
is no input of the function. -/
structure CBody (n : ℕ) where
  run : Cpu → Cpu
  ebp : ∀ c, (run c).gpr .ebp = c.gpr .ebp
  seg : ∀ c, (run c).seg = c.seg
  ss : ∀ c, (run c).ss = c.ss
  stack : ∀ c, Agree (c.gpr .ebp) n c.mem (run c).mem
  eax : ∀ c v, (run (c.set v (.gpr .eax))).gpr .eax = (run c).gpr .eax

end I386
