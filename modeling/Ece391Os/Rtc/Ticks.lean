import Ece391Os.Kernel.State
import Ece391Os.Lib.Transition
import Mathlib.Algebra.Group.Nat.Even

/-!
# Waiting for a tick

`read_rtc` and the flag of `rtc_handler` in `rtc.c`. The handler toggles `rtc_interrupt_occured`;
`read_rtc` loads the flag once to choose a loop, and leaves the loop when the flag has changed.

* `rtcStep`: interrupts of the clock, calls of `read_rtc` and their single loads, in any order. An
  interrupt counts from the store of its handler, and the handler acknowledges it only after that,
  so no other one comes between its load and its store.
* `WaitsForTick`: a call returns at a loop test exactly when there has been an interrupt since its
  first load.
* `load_eq_outside_iff`: it returns exactly when the number of these interrupts is odd.
* `along_waitsForTick_iff`: so it waits for the next tick unless a test comes after a positive even
  number of interrupts.
-/

namespace Ece391

open Transition

/-- Where a process is in `read_rtc`: before the load of the `if`, or in one of the two loops. -/
inductive RtcPc
  | outside
  | test
  | whileSet
  | whileClear
  deriving DecidableEq

/-- What the handler assigns to `rtc_interrupt_occured`. -/
def toggle (flag : Word) : Word := if flag ≠ 0#32 then 0#32 else 1#32

/-- The statement behind a load that has seen `flag`. A loop that is left returns. -/
def RtcPc.load (flag : Word) : RtcPc → RtcPc
  | outside => outside
  -- `if (rtc_interrupt_occured)`
  | test => if flag ≠ 0#32 then whileSet else whileClear
  -- `while(rtc_interrupt_occured);`
  | whileSet => if flag ≠ 0#32 then whileSet else outside
  -- `while(!rtc_interrupt_occured);`
  | whileClear => if flag = 0#32 then whileClear else outside

/-- The flag, the calls in progress, and for each of them the interrupts since its first load. -/
structure RtcState where
  rtcInterruptOccured : Word
  pc : Pid → RtcPc
  ticks : Pid → ℕ

/-- What can happen. -/
inductive RtcEvent
  /-- An interrupt of the clock. -/
  | interrupt
  /-- A process calls `read_rtc`. -/
  | call (p : Pid)
  /-- The call of a process makes its next load of the flag. -/
  | load (p : Pid)

/-- One step. -/
def rtcStep (s : RtcState) : RtcEvent → Option RtcState
  | .interrupt =>
    some { s with
      rtcInterruptOccured := toggle s.rtcInterruptOccured
      ticks := fun p => s.ticks p + 1 }
  | .call p =>
    if s.pc p = .outside then some { s with pc := Function.update s.pc p .test } else none
  | .load p =>
    if s.pc p = .outside then none
    else
      some { s with
        pc := Function.update s.pc p ((s.pc p).load s.rtcInterruptOccured)
        -- the count starts at the load of the `if`
        ticks := if s.pc p = .test then Function.update s.ticks p 0 else s.ticks }

/-- At boot the flag is clear and no process reads. -/
def RtcState.boot : RtcState := { rtcInterruptOccured := 0#32, pc := fun _ => .outside, ticks := 0 }

/-- A process tests the flag in one of the loops. -/
def RtcPc.InLoop (pc : RtcPc) : Prop := pc = .whileSet ∨ pc = .whileClear

/-- A loop test returns exactly when there has been an interrupt since the first load. -/
def WaitsForTick (s : RtcState) : RtcEvent → Prop
  | .load p => (s.pc p).InLoop →
    ((s.pc p).load s.rtcInterruptOccured = .outside ↔ 1 ≤ s.ticks p)
  | _ => True

/-- No loop test comes after a positive even number of interrupts. -/
def NoneOrOdd (s : RtcState) : RtcEvent → Prop
  | .load p => (s.pc p).InLoop → s.ticks p = 0 ∨ ¬ Even (s.ticks p)
  | _ => True

instance (pc : RtcPc) : Decidable pc.InLoop := inferInstanceAs (Decidable (_ ∨ _))

instance (s : RtcState) : ∀ e, Decidable (WaitsForTick s e)
  | .load _ => inferInstanceAs (Decidable (_ → _))
  | .interrupt | .call _ => isTrue trivial

/-! ## The parity of the interrupts -/

theorem toggle_eq_zero_iff (flag : Word) : toggle flag = 0#32 ↔ flag ≠ 0#32 := by
  rw [toggle]
  split_ifs with hflag
  · exact iff_of_true rfl hflag
  · exact iff_of_false (by decide) hflag

/-- In a loop the flag is as the loop was entered exactly after an even number of interrupts. -/
def RtcPc.Parity (flag : Word) (ticks : ℕ) : RtcPc → Prop
  | whileSet => flag ≠ 0#32 ↔ Even ticks
  | whileClear => flag = 0#32 ↔ Even ticks
  | outside | test => True

/-- The invariant of the system. -/
def RtcState.Inv (s : RtcState) : Prop := ∀ p, (s.pc p).Parity s.rtcInterruptOccured (s.ticks p)

theorem RtcPc.Parity.interrupt {pc : RtcPc} {flag : Word} {n : ℕ} (h : pc.Parity flag n) :
    pc.Parity (toggle flag) (n + 1) := by
  cases pc with
  | outside => trivial
  | test => trivial
  | whileSet =>
    have hflag : flag ≠ 0#32 ↔ Even n := h
    change toggle flag ≠ 0#32 ↔ Even (n + 1)
    rw [Nat.even_add_one, ne_eq, toggle_eq_zero_iff, hflag]
  | whileClear =>
    have hflag : flag = 0#32 ↔ Even n := h
    change toggle flag = 0#32 ↔ Even (n + 1)
    rw [Nat.even_add_one, toggle_eq_zero_iff, ne_eq, hflag]

/-- A loop test returns exactly after an odd number of interrupts. -/
theorem RtcPc.Parity.load_eq_outside_iff {pc : RtcPc} {flag : Word} {n : ℕ}
    (h : pc.Parity flag n) (hloop : pc.InLoop) : pc.load flag = .outside ↔ ¬ Even n := by
  rcases hloop with rfl | rfl
  · -- the loop that waits for a clear flag
    have hflag : flag ≠ 0#32 ↔ Even n := h
    rw [← hflag, RtcPc.load]
    split_ifs with hset <;> simp [hset]
  · -- the loop that waits for a set flag
    have hflag : flag = 0#32 ↔ Even n := h
    rw [← hflag, RtcPc.load]
    split_ifs with hclear <;> simp [hclear]

namespace RtcState.Inv

variable {s s' : RtcState}

theorem boot : RtcState.Inv .boot := fun _ => trivial

/-- The load of the `if` starts a count in the loop that fits the flag; a later one keeps it. -/
theorem load (h : s.Inv) (p : Pid) : RtcState.Inv { s with
    pc := Function.update s.pc p ((s.pc p).load s.rtcInterruptOccured)
    ticks := if s.pc p = .test then Function.update s.ticks p 0 else s.ticks } := by
  intro q
  by_cases hq : q = p
  · subst hq
    have hold := h q
    simp only [Function.update_self]
    cases hpc : s.pc q with
    | outside => trivial
    | test =>
      -- no interrupt has come since the first load, which has chosen the loop by the flag
      rw [if_pos rfl, Function.update_self, RtcPc.load]
      split_ifs with hset
      · exact iff_of_true hset ⟨0, rfl⟩
      · exact iff_of_true (not_not.mp hset) ⟨0, rfl⟩
    | whileSet | whileClear =>
      rw [hpc] at hold
      rw [if_neg (by decide), RtcPc.load]
      split_ifs
      · exact hold
      · trivial
  · -- another process has neither moved nor lost its count
    have hticks : (if s.pc p = .test then Function.update s.ticks p 0 else s.ticks) q =
        s.ticks q := by
      split_ifs
      · exact Function.update_of_ne hq _ _
      · rfl
    simp only [Function.update_of_ne hq, hticks]
    exact h q

theorem step (h : s.Inv) {e : RtcEvent} (hstep : rtcStep s e = some s') : s'.Inv := by
  cases e with
  | interrupt =>
    cases hstep
    -- the flag and the parity of every count change together
    exact fun p => (h p).interrupt
  | call p =>
    rw [rtcStep] at hstep
    split_ifs at hstep
    cases hstep
    intro q
    by_cases hq : q = p
    · subst hq
      simp only [Function.update_self]
      trivial
    · simp only [Function.update_of_ne hq]
      exact h q
  | load p =>
    rw [rtcStep] at hstep
    by_cases hout : s.pc p = .outside
    · rw [if_pos hout] at hstep
      cases hstep
    · rw [if_neg hout] at hstep
      cases hstep
      exact h.load p

/-- In a state of the invariant, the two conditions on a loop test are one. -/
theorem waitsForTick_iff (h : s.Inv) (e : RtcEvent) : WaitsForTick s e ↔ NoneOrOdd s e := by
  cases e with
  | interrupt => exact Iff.rfl
  | call p => exact Iff.rfl
  | load p =>
    refine imp_congr_right fun hloop => ?_
    rw [(h p).load_eq_outside_iff hloop]
    constructor
    · -- an even number of interrupts that is not positive is none
      intro hiff
      by_cases hzero : s.ticks p = 0
      · exact Or.inl hzero
      · exact Or.inr (hiff.mpr (Nat.one_le_iff_ne_zero.mpr hzero))
    · rintro (hzero | hodd)
      · -- without an interrupt the flag is as it was, and the test goes on
        rw [hzero]
        simp
      · refine iff_of_true hodd (Nat.one_le_iff_ne_zero.mpr fun hzero => hodd ?_)
        rw [hzero]
        exact ⟨0, rfl⟩

end RtcState.Inv

/-- In every run of interrupts, calls and loads, every call returns at its first loop test after an
interrupt, and at none before, exactly when no loop test comes after a positive even number of
interrupts since the first load of its call. -/
theorem along_waitsForTick_iff (es : List RtcEvent) :
    Along rtcStep WaitsForTick .boot es ↔ Along rtcStep NoneOrOdd .boot es :=
  along_iff_of_invariant (R := fun _ => True) (fun _ _ _ h _ _ hstep => h.step hstep)
    (fun _ e h _ => h.waitsForTick_iff e) RtcState.Inv.boot fun _ _ => trivial

/-- Two interrupts between two loads look like none. -/
theorem not_waitsForTick_two_interrupts :
    ¬ Along rtcStep WaitsForTick .boot
      [.call 3, .load 3, .interrupt, .interrupt, .load 3] := by
  decide

end Ece391
