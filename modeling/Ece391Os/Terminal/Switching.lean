import Ece391Os.Terminal.Line

/-!
# Which keys switch the terminal on screen

Alt+F1, Alt+F2 and Alt+F3 show terminals 0, 1 and 2.

* `AltHistory` is the rule: whether Alt is held, and the terminal of the last function key that came
  while it was.
* `SwitchesByAltFn`: the terminal on screen follows the rule, and no other key shows or activates
  one.
* `FallsThrough`: the cases of L and C in `kbd_to_char` fall through to that of F1.
* `along_switchesByAltFn_iff`: without Ctrl, a sequence of keys follows the rule exactly as long as
  none of them falls through.
-/

namespace Ece391

open Transition

/-- The terminal of a function key, by its make code. -/
def functionKey (inpack : Byte) : Option TermId :=
  if inpack = 59#8 then some 0 else if inpack = 60#8 then some 1
  else if inpack = 61#8 then some 2 else none

/-- What the keys so far have asked for. -/
structure AltHistory where
  /-- The last scancode of Alt was its make code. -/
  held : Bool
  /-- The terminal of the last function key that came while Alt was held, 0 before the first one. -/
  shown : TermId

namespace AltHistory

/-- No key has been pressed. -/
def start : AltHistory := ⟨false, 0⟩

/-- The key is a function key, and Alt is held. -/
def Asks (h : AltHistory) (inpack : Byte) : Prop := h.held = true ∧ functionKey inpack ≠ none

/-- One more scancode. -/
def press (h : AltHistory) (inpack : Byte) : AltHistory where
  held := if inpack = 56#8 then true else if inpack = 184#8 then false else h.held
  shown := if h.held then (functionKey inpack).getD h.shown else h.shown

/-- Only a key that asks for a terminal changes the one asked for. -/
theorem shown_press {h : AltHistory} {inpack : Byte} (hasks : ¬ h.Asks inpack) :
    (h.press inpack).shown = h.shown := by
  change (if h.held then (functionKey inpack).getD h.shown else h.shown) = h.shown
  split_ifs with hheld
  · have hnone : functionKey inpack = none := by
      by_contra hne
      exact hasks ⟨hheld, hne⟩
    rw [hnone]
    rfl
  · rfl

end AltHistory

/-- A key, with the history of the keys before it. -/
def keyStep (env : Env) (s : Kernel × AltHistory) (inpack : Byte) : Option (Kernel × AltHistory) :=
  (kbd env inpack s.1).map fun (_, k) => (k, s.2.press inpack)

/-- The terminal on screen is the one asked for last, and a key that asks for none shows no other
terminal and activates none. -/
structure SwitchesByAltFn (env : Env) (s : Kernel × AltHistory) (inpack : Byte) : Prop where
  shown : ∀ s', keyStep env s inpack = some s' → s'.1.con.termOnScreen = s'.2.shown
  others : ∀ s', keyStep env s inpack = some s' → ¬ s.2.Asks inpack →
    s'.1.con.termOnScreen = s.1.con.termOnScreen ∧
      ∀ t, (s'.1.procs.terminal t).active = (s.1.procs.terminal t).active

/-- L or C, with Alt held and another terminal than 0 shown. -/
def FallsThrough (s : Kernel × AltHistory) (inpack : Byte) : Prop :=
  s.2.held = true ∧ (inpack = 38#8 ∨ inpack = 46#8) ∧ s.2.shown ≠ 0

instance (s : Kernel × AltHistory) (inpack : Byte) : Decidable (FallsThrough s inpack) :=
  inferInstanceAs (Decidable (_ ∧ _ ∧ _))

/-! ## The decoder without Ctrl -/

/-- The terminal a scancode shows while Alt is held. -/
def altTerm (inpack : Byte) : Option TermId :=
  if inpack = 38#8 ∨ inpack = 46#8 then some 0 else functionKey inpack

/-- The flags after a scancode. -/
theorem decode_flags (env : Env) (kb : Keyboard) (inpack : Byte) :
    (decode env kb inpack).1.altOn =
        (if inpack = 56#8 then true else if inpack = 184#8 then false else kb.altOn) ∧
      (decode env kb inpack).1.ctrlReady =
        (if inpack = 29#8 then true else if inpack = 157#8 then false else kb.ctrlReady) := by
  rw [decode]
  simp only [← BitVec.toNat_inj]
  split <;> simp_all

/-- Without Ctrl, a scancode of `altTerm` shows its terminal while Alt is held. -/
theorem decode_switch (env : Env) {kb : Keyboard} {inpack : Byte} {t : TermId}
    (hctrl : kb.ctrlReady = false) (halt : kb.altOn = true) (ht : altTerm inpack = some t) :
    (decode env kb inpack).2 = .switch t := by
  rw [altTerm, functionKey] at ht
  simp only [← BitVec.toNat_inj] at ht
  rw [decode]
  split <;> simp_all [case38, case46, case59, case60, case61]

/-- Without Ctrl, every other scancode is a flag or is looked up. -/
theorem decode_still (env : Env) {kb : Keyboard} {inpack : Byte} (hctrl : kb.ctrlReady = false)
    (hstill : kb.altOn = true → altTerm inpack = none) :
    (decode env kb inpack).2 = .null ∨ ∃ c, (decode env kb inpack).2 = .char c := by
  rw [altTerm, functionKey] at hstill
  simp only [← BitVec.toNat_inj] at hstill
  rw [decode]
  cases halt : kb.altOn <;> split <;> simp_all [case38, case46, case59, case60, case61]

/-! ## One key -/

/-- The kernel has the flags and the terminal on screen of the history. -/
structure Follows (s : Kernel × AltHistory) : Prop where
  held : s.1.kbd.altOn = s.2.held
  ctrl : s.1.kbd.ctrlReady = false
  shown : s.1.con.termOnScreen = s.2.shown

section

variable {env : Env} {k k' : Kernel} {inpack : Byte} {r : KbdResult} {t : TermId}

@[simp]
theorem kbd_switchTerm (toTerm : TermId) (k : Kernel) : (switchTerm toTerm k).kbd = k.kbd := by
  rw [switchTerm]
  split_ifs <;> rfl

@[simp]
theorem termOnScreen_switchTerm (toTerm : TermId) (k : Kernel) :
    (switchTerm toTerm k).con.termOnScreen = toTerm := by
  rw [switchTerm]
  split_ifs with h
  · exact h
  · rfl

/-- A key that asks for a terminal. -/
theorem kbd_of_switch (haction : (decode env k.kbd inpack).2 = .switch t) :
    kbd env inpack k = some (.iret [], (switchTerm t
      ({ k with kbd := (decode env k.kbd inpack).1 }.sendEoi 1#32)).sendEoi 1#32) := by
  rw [kbd]
  simp only [haction, kbdInput_zero]

/-- A key that is a flag or is looked up. -/
theorem kbd_of_still
    (haction : (decode env k.kbd inpack).2 = .null ∨ ∃ c, (decode env k.kbd inpack).2 = .char c)
    (h : kbd env inpack k = some (r, k')) :
    k'.kbd = (decode env k.kbd inpack).1 ∧ k'.con.termOnScreen = k.con.termOnScreen ∧
      k'.procs = k.procs := by
  have hnot : ∀ flags action, decode env k.kbd inpack = (flags, action) →
      action = .null ∨ ∃ c, action = .char c := by
    rintro flags action hkey
    rwa [hkey] at haction
  cases kbd_cases h with
  | null hkey => exact ⟨by rw [hkey]; rfl, rfl, rfl⟩
  | char hkey hcon =>
    obtain ⟨-, -, -, -, hscreen⟩ := Console.key_eq_some hcon
    exact ⟨by rw [hkey]; rfl, hscreen, rfl⟩
  | clearLine hkey | architect hkey | halt hkey | switch hkey =>
    rcases hnot _ _ hkey with h | ⟨c, h⟩ <;> cases h

end

namespace Follows

variable {env : Env} {s s' : Kernel × AltHistory} {inpack : Byte}

/-- What a key does without Ctrl. -/
theorem keyStep_spec (h : Follows s) (hstep : keyStep env s inpack = some s') :
    s'.1.kbd = (decode env s.1.kbd inpack).1 ∧ s'.2 = s.2.press inpack ∧
      s'.1.con.termOnScreen =
        (if s.2.held then (altTerm inpack).getD s.2.shown else s.2.shown) ∧
      (s'.1.con.termOnScreen = s.1.con.termOnScreen →
        ∀ t, (s'.1.procs.terminal t).active = (s.1.procs.terminal t).active) := by
  obtain ⟨⟨r, k'⟩, hkey, rfl⟩ := Option.map_eq_some_iff.mp hstep
  by_cases hswitch : s.2.held = true ∧ ∃ t, altTerm inpack = some t
  · obtain ⟨hheld, t, ht⟩ := hswitch
    rw [kbd_of_switch (decode_switch env h.ctrl (h.held.trans hheld) ht)] at hkey
    cases hkey
    refine ⟨by simp [Kernel.sendEoi], rfl, by simp [hheld, ht], fun hsame t' => ?_⟩
    -- a terminal that is on screen already is not activated again
    rw [Kernel.con_sendEoi, termOnScreen_switchTerm] at hsame
    rw [Kernel.procs_sendEoi, procs_switchTerm, if_pos (by exact hsame.symm)]
    rfl
  · -- the key is a flag or is looked up, and shows no terminal
    have hstill : s.1.kbd.altOn = true → altTerm inpack = none := by
      intro halt
      rw [h.held] at halt
      exact Option.eq_none_iff_forall_ne_some.mpr fun t ht => hswitch ⟨halt, t, ht⟩
    obtain ⟨hkbd, hscreen, hprocs⟩ := kbd_of_still (decode_still env h.ctrl hstill) hkey
    refine ⟨hkbd, rfl, ?_, fun _ t => by rw [hprocs]⟩
    rw [hscreen, h.shown]
    split_ifs with hheld
    · rw [hstill (h.held.trans hheld)]
      rfl
    · rfl

/-- The terminal the key shows is the one asked for, unless it falls through. -/
theorem shown_iff (s : Kernel × AltHistory) (inpack : Byte) :
    (if s.2.held then (altTerm inpack).getD s.2.shown else s.2.shown) = (s.2.press inpack).shown ↔
      ¬ FallsThrough s inpack := by
  -- the two letters are no function keys
  have hletter : inpack = 38#8 ∨ inpack = 46#8 → functionKey inpack = none := by
    rintro (rfl | rfl) <;> decide
  rw [AltHistory.press, FallsThrough, altTerm]
  by_cases hheld : s.2.held = true
  · by_cases hcode : inpack = 38#8 ∨ inpack = 46#8
    · simp [hheld, hcode, hletter hcode, eq_comm]
    · simp [hheld, hcode]
  · simp [hheld]

/-- A key that does not fall through keeps the terminal on screen with the history. -/
theorem keyStep (h : Follows s) (hinpack : inpack ≠ 29#8) (hfalls : ¬ FallsThrough s inpack)
    (hstep : keyStep env s inpack = some s') : Follows s' := by
  obtain ⟨hkbd, hhist, hscreen, -⟩ := h.keyStep_spec hstep
  obtain ⟨halt, hctrl⟩ := decode_flags env s.1.kbd inpack
  -- the flags and the terminal on screen, each as the history has it
  constructor
  · rw [hkbd, halt, hhist, h.held]
    rfl
  · rw [hkbd, hctrl, if_neg hinpack, h.ctrl, ite_self]
  · rw [hscreen, hhist, (shown_iff s inpack).mpr hfalls]

/-- A key follows the rule exactly if it does not fall through. -/
theorem switchesByAltFn_iff (h : Follows s) :
    SwitchesByAltFn env s inpack ↔ ¬ FallsThrough s inpack := by
  constructor
  · rintro hrule ⟨hheld, hcode, hshown⟩
    -- the letter shows terminal 0, and the rule asks for the one already shown
    have hkey := kbd_of_switch (decode_switch env h.ctrl (h.held.trans hheld) (if_pos hcode))
    have hstep : Ece391.keyStep env s inpack = some (_, s.2.press inpack) :=
      Option.map_eq_some_iff.mpr ⟨_, hkey, rfl⟩
    have hscreen := (h.keyStep_spec hstep).2.2.1
    rw [hrule.shown _ hstep] at hscreen
    exact (shown_iff s inpack).mp hscreen.symm ⟨hheld, hcode, hshown⟩
  · intro hfalls
    refine ⟨fun s' hstep => ?_, fun s' hstep hasks => ?_⟩
    · obtain ⟨-, hhist, hscreen, -⟩ := h.keyStep_spec hstep
      rw [hscreen, hhist, (shown_iff s inpack).mpr hfalls]
    · obtain ⟨-, -, hscreen, hactive⟩ := h.keyStep_spec hstep
      have hsame : s'.1.con.termOnScreen = s.1.con.termOnScreen := by
        rw [hscreen, (shown_iff s inpack).mpr hfalls, AltHistory.shown_press hasks, h.shown]
      exact ⟨hsame, hactive hsame⟩

end Follows

/-! ## Sequences of keys -/

/-- Without Ctrl, a sequence of keys follows the rule exactly as long as no key falls through. -/
theorem along_switchesByAltFn_iff {env : Env} {k : Kernel} {codes : List Byte}
    (hkbd : k.kbd = ⟨false, false, false, false, false⟩) (hscreen : k.con.termOnScreen = 0)
    (hctrl : ∀ inpack ∈ codes, inpack ≠ 29#8) :
    Along (keyStep env) (SwitchesByAltFn env) (k, .start) codes ↔
      Along (keyStep env) (fun s inpack => ¬ FallsThrough s inpack) (k, .start) codes := by
  have hstart : Follows (k, .start) := ⟨by rw [hkbd]; rfl, by rw [hkbd], hscreen⟩
  exact along_iff_of_invariant (I := Follows) (R := fun inpack => inpack ≠ 29#8)
    (fun _ _ _ h hinpack hfalls hstep => h.keyStep hinpack hfalls hstep)
    (fun _ _ h _ => h.switchesByAltFn_iff) hstart hctrl

/-- Alt+F2, a release of Alt, and an L on the screen of terminal 1. -/
theorem along_switchesByAltFn_sample :
    ∃ r k₀, entry sampleEnv zeroRam = some (r, k₀) ∧
      Along (keyStep sampleEnv) (SwitchesByAltFn sampleEnv) (k₀, .start)
        [56#8, 60#8, 184#8, 38#8, 46#8] := by
  have hrun : (entry sampleEnv zeroRam).any fun x =>
      decide (x.2.kbd = ⟨false, false, false, false, false⟩ ∧ x.2.con.termOnScreen = 0 ∧
        Along (keyStep sampleEnv) (fun s inpack => ¬ FallsThrough s inpack) (x.2, .start)
          [56#8, 60#8, 184#8, 38#8, 46#8]) := by
    decide +kernel
  simp only [Option.any_eq_true, decide_eq_true_eq] at hrun
  obtain ⟨⟨r, k₀⟩, hentry, hkbd, hscreen, hfalls⟩ := hrun
  exact ⟨r, k₀, hentry, (along_switchesByAltFn_iff hkbd hscreen (by decide)).mpr hfalls⟩

/-- Alt+L on the screen of terminal 1 shows terminal 0. -/
theorem not_switchesByAltFn_altL :
    ∃ r k₀ s k', entry sampleEnv zeroRam = some (r, k₀) ∧
      exec (keyStep sampleEnv) (k₀, .start) [56#8, 60#8] = some s ∧
      s.1.con.termOnScreen = 1 ∧ kbd sampleEnv 38#8 s.1 = some (.iret [], k') ∧
      k'.con.termOnScreen = 0 ∧
      ¬ Along (keyStep sampleEnv) (SwitchesByAltFn sampleEnv) (k₀, .start) [56#8, 60#8, 38#8] := by
  have hrun : (entry sampleEnv zeroRam).any fun x =>
      (exec (keyStep sampleEnv) (x.2, .start) [56#8, 60#8]).any fun s =>
        (kbd sampleEnv 38#8 s.1).any fun y => decide (s.1.con.termOnScreen = 1 ∧
          s.2.shown = 1 ∧ y.1.stores = some [] ∧ y.2.con.termOnScreen = 0) := by
    decide +kernel
  simp only [Option.any_eq_true, decide_eq_true_eq] at hrun
  obtain ⟨⟨r, k₀⟩, hentry, s, hs, ⟨res, k'⟩, hkey, hone, hshown, hstores, hzero⟩ := hrun
  obtain rfl : res = .iret _ := KbdResult.stores_eq_some.mp hstores
  refine ⟨r, k₀, s, k', hentry, hs, hone, hkey, hzero, fun h => ?_⟩
  have hlast : SwitchesByAltFn sampleEnv s 38#8 :=
    (Along.of_exec h hs : Along _ _ _ [38#8]).1
  have hstep : keyStep sampleEnv s 38#8 = some (k', s.2.press 38#8) :=
    Option.map_eq_some_iff.mpr ⟨_, hkey, rfl⟩
  have hsame : k'.con.termOnScreen = (s.2.press 38#8).shown := hlast.shown _ hstep
  rw [AltHistory.shown_press (fun hasks => hasks.2 (by decide)), hshown, hzero] at hsame
  exact absurd hsame (by decide)

end Ece391
