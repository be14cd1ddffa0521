import Ece391Os.Kernel.I8259

/-!
# The masks of the interrupt lines

`enable_irq` and `disable_irq` for the lines 0 to 15, from `i8259_init` on.

* `MaskCall` is one call, and `runCalls` a sequence of calls.
* `MaskCall.Names`: a call is about its own line, and a call that enables a line of the slave is
  also about the cascade, IRQ 2.
* `unmasked_run`: the step. A call decides the lines it names and leaves the others.
* `tracksRequests`: after any sequence of calls, a line is unmasked exactly if the last call that
  names it enables a line, and every call sends the bytes it has assigned.
-/

namespace Ece391

/-- The two controllers. -/
inductive Controller
  | master
  | slave
  deriving DecidableEq

/-- A call of `enable_irq` or `disable_irq`. -/
inductive MaskCall
  | enable (irqNum : Fin 16)
  | disable (irqNum : Fin 16)

namespace MaskCall

/-- What a call does to the masks and the ports. -/
def run (p : I8259) : MaskCall → I8259
  | enable irqNum => p.enableIrq (BitVec.ofNat 32 irqNum)
  | disable irqNum => p.disableIrq (BitVec.ofNat 32 irqNum)

/-- The call enables a line. -/
def Enables : MaskCall → Prop
  | enable _ => True
  | disable _ => False

/-- The call is about a line: its own one, or the cascade if it enables a line of the slave. -/
def Names (line : Fin 16) : MaskCall → Prop
  | enable irqNum => irqNum = line ∨ line.val = 2 ∧ 8 ≤ irqNum.val
  | disable irqNum => irqNum = line

/-- The controllers whose shadow mask a call assigns, in the order of the assignments. -/
def assigns : MaskCall → List Controller
  | enable irqNum => if 8 ≤ irqNum.val then [.slave, .master] else [.master]
  | disable irqNum => if 8 ≤ irqNum.val then [.slave] else [.master]

instance (c : MaskCall) : Decidable c.Enables := by
  cases c <;> unfold Enables <;> infer_instance

instance (line : Fin 16) (c : MaskCall) : Decidable (c.Names line) := by
  cases c <;> unfold Names <;> infer_instance

end MaskCall

namespace I8259

/-- A sequence of calls. -/
def runCalls (p : I8259) (cs : List MaskCall) : I8259 := cs.foldl MaskCall.run p

/-- The shadow mask of a controller. -/
def mask (p : I8259) : Controller → Byte
  | .master => p.masterMask
  | .slave => p.slaveMask

/-- The mask port of a controller. -/
def maskPort : Controller → Word
  | .master => masterPort2
  | .slave => slavePort2

/-- The bit of a line in the shadow mask of its controller is clear. -/
def Unmasked (p : I8259) (line : Fin 16) : Prop :=
  (if line.val < 8 then p.masterMask.getLsbD line else p.slaveMask.getLsbD (line - 8)) = false

instance (p : I8259) (line : Fin 16) : Decidable (p.Unmasked line) :=
  inferInstanceAs (Decidable (_ = _))

end I8259

/-- The last call of a sequence that names a line. -/
def lastCall (line : Fin 16) (cs : List MaskCall) : Option MaskCall :=
  cs.reverse.find? fun c => c.Names line

/-- The masks after `cs` say what has been asked for last; the next call changes the lines it names
only, and sends each mask it assigns to the controller's mask port. -/
structure TracksRequests (p : I8259) (cs : List MaskCall) : Prop where
  lines : ∀ line, (p.runCalls cs).Unmasked line ↔ ∃ c, lastCall line cs = some c ∧ c.Enables
  others : ∀ (c : MaskCall) line, ¬ c.Names line →
    ((c.run (p.runCalls cs)).Unmasked line ↔ (p.runCalls cs).Unmasked line)
  sends : ∀ c : MaskCall, (c.run (p.runCalls cs)).out = (p.runCalls cs).out ++
    c.assigns.map fun ctrl => (I8259.maskPort ctrl, (c.run (p.runCalls cs)).mask ctrl)
  keeps : ∀ (c : MaskCall) ctrl, ctrl ∉ c.assigns →
    (c.run (p.runCalls cs)).mask ctrl = (p.runCalls cs).mask ctrl

/-! ## One call -/

/-- `0xff - (1 << irq_num)` clears one bit. -/
theorem getLsbD_and_clearMask (m : Byte) {n i : ℕ} (hn : n < 8) (hi : i < 8) :
    (m &&& I8259.clearMask (BitVec.ofNat 32 n)).getLsbD i = (m.getLsbD i && decide (i ≠ n)) := by
  have hmask : ∀ n i : Fin 8,
      (I8259.clearMask (BitVec.ofNat 32 n)).getLsbD i = decide (i.val ≠ n.val) := by
    decide +kernel
  rw [BitVec.getLsbD_and, hmask ⟨n, hn⟩ ⟨i, hi⟩]

/-- `1 << irq_num` sets one bit. -/
theorem getLsbD_or_setMask (m : Byte) {n i : ℕ} (hn : n < 8) (hi : i < 8) :
    (m ||| I8259.setMask (BitVec.ofNat 32 n)).getLsbD i = (m.getLsbD i || decide (i = n)) := by
  have hmask : ∀ n i : Fin 8,
      (I8259.setMask (BitVec.ofNat 32 n)).getLsbD i = decide (i.val = n.val) := by
    decide +kernel
  rw [BitVec.getLsbD_or, hmask ⟨n, hn⟩ ⟨i, hi⟩]

/-- Bit 3 of a line number selects the slave. -/
theorem and_eight_ne_zero_iff (irqNum : Fin 16) :
    BitVec.ofNat 32 irqNum &&& 8#32 ≠ 0#32 ↔ 8 ≤ irqNum.val := by
  revert irqNum
  decide

/-- The number of a line of the slave among its eight lines. -/
theorem and_seven_eq {irqNum : Fin 16} (h : 8 ≤ irqNum.val) :
    BitVec.ofNat 32 irqNum &&& 7#32 = BitVec.ofNat 32 (irqNum.val - 8) := by
  revert irqNum
  decide

namespace I8259

/-- A line of the slave is enabled, and the cascade with it. -/
theorem enableIrq_of_le (p : I8259) {irqNum : Fin 16} (h : 8 ≤ irqNum.val) :
    p.enableIrq (BitVec.ofNat 32 irqNum) =
      let slave := p.slaveMask &&& clearMask (BitVec.ofNat 32 (irqNum.val - 8))
      let master := p.masterMask &&& clearMask 2#32
      ({ p with slaveMask := slave, masterMask := master }.outb slave slavePort2).outb master
        masterPort2 := by
  rw [enableIrq, if_pos ((and_eight_ne_zero_iff irqNum).mpr h), and_seven_eq h]

/-- A line of the master is enabled. -/
theorem enableIrq_of_not_le (p : I8259) {irqNum : Fin 16} (h : ¬ 8 ≤ irqNum.val) :
    p.enableIrq (BitVec.ofNat 32 irqNum) =
      let master := p.masterMask &&& clearMask (BitVec.ofNat 32 irqNum)
      { p with masterMask := master }.outb master masterPort2 :=
  if_neg (mt (and_eight_ne_zero_iff irqNum).mp h)

/-- A line of the slave is disabled. -/
theorem disableIrq_of_le (p : I8259) {irqNum : Fin 16} (h : 8 ≤ irqNum.val) :
    p.disableIrq (BitVec.ofNat 32 irqNum) =
      let slave := p.slaveMask ||| setMask (BitVec.ofNat 32 (irqNum.val - 8))
      { p with slaveMask := slave }.outb slave slavePort2 := by
  rw [disableIrq, if_pos ((and_eight_ne_zero_iff irqNum).mpr h), and_seven_eq h]

/-- A line of the master is disabled. -/
theorem disableIrq_of_not_le (p : I8259) {irqNum : Fin 16} (h : ¬ 8 ≤ irqNum.val) :
    p.disableIrq (BitVec.ofNat 32 irqNum) =
      let master := p.masterMask ||| setMask (BitVec.ofNat 32 irqNum)
      { p with masterMask := master }.outb master masterPort2 :=
  if_neg (mt (and_eight_ne_zero_iff irqNum).mp h)

end I8259

theorem unmasked_enableIrq (p : I8259) (irqNum line : Fin 16) :
    (p.enableIrq (BitVec.ofNat 32 irqNum)).Unmasked line ↔
      (MaskCall.enable irqNum).Names line ∨ p.Unmasked line := by
  rw [MaskCall.Names]
  by_cases hslave : 8 ≤ irqNum.val
  · -- a bit of each mask is cleared: that of the line, and that of the cascade
    rw [p.enableIrq_of_le hslave]
    by_cases hline : line.val < 8
    · simp only [I8259.Unmasked, if_pos hline, I8259.outb]
      rw [getLsbD_and_clearMask _ (by decide : 2 < 8) hline, Bool.and_eq_false_iff, Fin.ext_iff]
      simp only [decide_eq_false_iff_not, not_not]
      grind
    · simp only [I8259.Unmasked, if_neg hline, I8259.outb]
      rw [getLsbD_and_clearMask _ (by omega) (by omega), Bool.and_eq_false_iff, Fin.ext_iff]
      simp only [decide_eq_false_iff_not, not_not]
      grind
  · rw [p.enableIrq_of_not_le hslave]
    by_cases hline : line.val < 8
    · simp only [I8259.Unmasked, if_pos hline, I8259.outb]
      rw [getLsbD_and_clearMask _ (by omega) hline, Bool.and_eq_false_iff, Fin.ext_iff]
      simp only [decide_eq_false_iff_not, not_not]
      grind
    · simp only [I8259.Unmasked, if_neg hline, I8259.outb, Fin.ext_iff]
      grind

theorem unmasked_disableIrq (p : I8259) (irqNum line : Fin 16) :
    (p.disableIrq (BitVec.ofNat 32 irqNum)).Unmasked line ↔
      ¬ (MaskCall.disable irqNum).Names line ∧ p.Unmasked line := by
  rw [MaskCall.Names, Fin.ext_iff]
  by_cases hslave : 8 ≤ irqNum.val
  · rw [p.disableIrq_of_le hslave]
    by_cases hline : line.val < 8
    · simp only [I8259.Unmasked, if_pos hline, I8259.outb]
      grind
    · simp only [I8259.Unmasked, if_neg hline, I8259.outb]
      rw [getLsbD_or_setMask _ (by omega) (by omega), Bool.or_eq_false_iff]
      simp only [decide_eq_false_iff_not]
      grind
  · rw [p.disableIrq_of_not_le hslave]
    by_cases hline : line.val < 8
    · simp only [I8259.Unmasked, if_pos hline, I8259.outb]
      rw [getLsbD_or_setMask _ (by omega) hline, Bool.or_eq_false_iff]
      simp only [decide_eq_false_iff_not]
      grind
    · simp only [I8259.Unmasked, if_neg hline, I8259.outb]
      grind

/-- A call decides the lines it names, and leaves the others as they were. -/
theorem unmasked_run (p : I8259) (c : MaskCall) (line : Fin 16) :
    (c.run p).Unmasked line ↔ if c.Names line then c.Enables else p.Unmasked line := by
  cases c with
  | enable irqNum =>
    rw [MaskCall.run, unmasked_enableIrq]
    split_ifs with hnames
    · exact iff_of_true (Or.inl hnames) trivial
    · exact or_iff_right hnames
  | disable irqNum =>
    rw [MaskCall.run, unmasked_disableIrq]
    split_ifs with hnames
    · exact iff_of_false (fun h => h.1 hnames) id
    · exact and_iff_right hnames

/-- A call sends the masks it assigns, and assigns no other one. -/
theorem out_run (p : I8259) (c : MaskCall) :
    (c.run p).out =
      p.out ++ c.assigns.map fun ctrl => (I8259.maskPort ctrl, (c.run p).mask ctrl) := by
  cases c with
  | enable irqNum =>
    rw [MaskCall.run, MaskCall.assigns]
    by_cases hslave : 8 ≤ irqNum.val
    · -- the slave's mask is sent first
      rw [p.enableIrq_of_le hslave, if_pos hslave]
      exact List.append_assoc _ _ _
    · rw [p.enableIrq_of_not_le hslave, if_neg hslave]
      rfl
  | disable irqNum =>
    rw [MaskCall.run, MaskCall.assigns]
    by_cases hslave : 8 ≤ irqNum.val
    · rw [p.disableIrq_of_le hslave, if_pos hslave]
      rfl
    · rw [p.disableIrq_of_not_le hslave, if_neg hslave]
      rfl

theorem mask_run_of_notMem (p : I8259) {c : MaskCall} {ctrl : Controller}
    (h : ctrl ∉ c.assigns) : (c.run p).mask ctrl = p.mask ctrl := by
  cases c with
  | enable irqNum =>
    rw [MaskCall.assigns] at h
    by_cases hslave : 8 ≤ irqNum.val
    · -- both masks are assigned
      rw [if_pos hslave] at h
      cases ctrl <;> simp at h
    · rw [if_neg hslave] at h
      rw [MaskCall.run, p.enableIrq_of_not_le hslave]
      cases ctrl with
      | master => simp at h
      | slave => rfl
  | disable irqNum =>
    rw [MaskCall.assigns] at h
    by_cases hslave : 8 ≤ irqNum.val
    · rw [if_pos hslave] at h
      rw [MaskCall.run, p.disableIrq_of_le hslave]
      cases ctrl with
      | master => rfl
      | slave => simp at h
    · rw [if_neg hslave] at h
      rw [MaskCall.run, p.disableIrq_of_not_le hslave]
      cases ctrl with
      | master => simp at h
      | slave => rfl

/-! ## Sequences of calls -/

theorem lastCall_concat (line : Fin 16) (cs : List MaskCall) (c : MaskCall) :
    lastCall line (cs ++ [c]) = if c.Names line then some c else lastCall line cs := by
  rw [lastCall, List.reverse_concat, List.find?_cons]
  by_cases hnames : c.Names line <;> simp [hnames, lastCall]

/-- After `i8259_init` every line is masked, and from then on the last call that names it
decides. -/
theorem unmasked_runCalls (p : I8259) (cs : List MaskCall) (line : Fin 16) :
    (p.i8259Init.runCalls cs).Unmasked line ↔ ∃ c, lastCall line cs = some c ∧ c.Enables := by
  -- by induction on the calls, the last one first
  induction cs using List.reverseRecOn with
  | nil =>
    have hmasked : ∀ line : Fin 16, ¬ p.i8259Init.Unmasked line := by
      intro line
      change ¬ (if line.val < 8 then (0xff#8).getLsbD line else (0xff#8).getLsbD (line - 8)) = false
      revert line
      decide
    refine iff_of_false (hmasked line) ?_
    rintro ⟨c, hlast, -⟩
    cases hlast
  | append_singleton cs c ih =>
    have hrun : p.i8259Init.runCalls (cs ++ [c]) = c.run (p.i8259Init.runCalls cs) := by
      rw [I8259.runCalls, List.foldl_append]
      rfl
    rw [hrun, unmasked_run, lastCall_concat]
    split_ifs with hnames
    · simp
    · exact ih

/-- After `i8259_init` and any calls for the lines 0 to 15, the masks track the last request for
each line, and what has been asked for is sent to the controllers. -/
theorem tracksRequests (p : I8259) (cs : List MaskCall) : TracksRequests p.i8259Init cs := by
  constructor
  · intro line
    exact unmasked_runCalls p cs line
  · intro c line hnames
    rw [unmasked_run, if_neg hnames]
  · intro c
    exact out_run _ c
  · intro c ctrl hctrl
    exact mask_run_of_notMem _ hctrl

end Ece391
