import Ece391Os.Terminal.Line

/-!
# Streams of scancodes

`kbd_to_char` looks a scancode up in `characters` without looking at its range: a byte that has no
case of its own is the index, with 60 added for the upper half of the table.

* `loads` are the indices a byte loads, and `decode_char` says that a character is what lies there.
* `WellDecoded`: over a stream the loads stay in the table, no release yields a character, and what
  the handler does to a line depends on the presses only.
* `wellDecoded_iff`: a stream is decoded so exactly if each byte of it is a release of Shift, Ctrl
  or Alt, or a press of a key of the lower half of the table, or one of the upper half without
  Shift.
-/

namespace Ece391

open Transition

/-- The index of `characters` for a scancode. -/
def lookupIndex (kb : Keyboard) (inpack : ℕ) : ℕ :=
  if kb.capsLockOn && !(kb.lShiftOn || kb.rShiftOn) then
    if (15 < inpack ∧ inpack < 26) ∨ (29 < inpack ∧ inpack < 39) ∨ (43 < inpack ∧ inpack < 51) then
      inpack + 60
    else inpack
  else if (kb.lShiftOn || kb.rShiftOn) && !kb.capsLockOn then inpack + 60
  else inpack

/-- The loads from `characters` behind an action: a character has been looked up. -/
def KeyAction.lookups (index : ℕ) : KeyAction → List ℕ
  | .char _ => [index]
  | _ => []

/-- The indices of `characters` a byte loads. -/
def loads (env : Env) (kb : Keyboard) (inpack : Byte) : List ℕ :=
  (decode env kb inpack).2.lookups (lookupIndex kb inpack.toNat)

/-- One byte of a stream changes the flags. -/
def flagsStep (env : Env) (kb : Keyboard) (inpack : Byte) : Option Keyboard :=
  some (decode env kb inpack).1

/-- The handler does the same with other bytes behind the table, and a release leaves the lines of
all terminals as they are. -/
def OnlyPresses (env : Env) (kb : Keyboard) (inpack : Byte) : Prop :=
  ∀ k r k', k.kbd = kb → kbd env inpack k = some (r, k') →
    (∀ after, kbd { env with charactersAfter := after } inpack k = some (r, k')) ∧
      (128 ≤ inpack.toNat → k'.con.lines = k.con.lines)

/-- A stream that is decoded with the table alone. -/
structure WellDecoded (env : Env) (kb : Keyboard) (stream : List Byte) : Prop where
  loads : Along (flagsStep env) (fun kb b => ∀ i ∈ loads env kb b, i < 122) kb stream
  releases : Along (flagsStep env)
    (fun kb b => 128 ≤ b.toNat → ∀ c, (decode env kb b).2 ≠ .char c) kb stream
  presses : Along (flagsStep env) (OnlyPresses env) kb stream

/-- Shift selects the upper half of the table. -/
def Keyboard.Shifts (kb : Keyboard) : Prop :=
  (kb.lShiftOn || kb.rShiftOn) && !kb.capsLockOn

instance (kb : Keyboard) : Decidable kb.Shifts := inferInstanceAs (Decidable (_ = true))

/-- The byte is looked up in the table, or not at all: a release of Ctrl, Shift or Alt, a Windows
key, a key of the lower half of the table, or a byte of the upper half while Shift does not add
60 to it. -/
def InTable (kb : Keyboard) (inpack : Byte) : Prop :=
  inpack.toNat ∈ [157, 170, 182, 184] ∨ inpack.toNat ∈ [91, 92, 93] ∨ inpack.toNat < 62 ∨
    inpack.toNat < 122 ∧ ¬ kb.Shifts

instance (kb : Keyboard) (inpack : Byte) : Decidable (InTable kb inpack) :=
  inferInstanceAs (Decidable (_ ∨ _ ∨ _ ∨ _ ∧ _))

section

variable {env : Env} {kb : Keyboard} {inpack : Byte} {n : ℕ}

theorem lookup_eq (env : Env) (kb : Keyboard) (n : ℕ) :
    lookup env kb n = characterAt env (lookupIndex kb n) := by
  rw [lookup, lookupIndex]
  split_ifs <;> rfl

/-- The index is in the table for the lower half, and for the upper half if 60 is not added. -/
theorem lookupIndex_lt_iff (kb : Keyboard) (n : ℕ) :
    lookupIndex kb n < 122 ↔ n < 62 ∨ n < 122 ∧ ¬ kb.Shifts := by
  rw [lookupIndex, Keyboard.Shifts]
  -- Caps Lock adds 60 to the letters only, which are in the lower half
  cases kb.capsLockOn <;> cases kb.lShiftOn || kb.rShiftOn
  · simp
    omega
  · simp
    omega
  · simp
    split_ifs <;> omega
  · simp
    omega

theorem KeyAction.mem_lookups {index i : ℕ} {action : KeyAction} (h : i ∈ action.lookups index) :
    i = index := by
  cases action with
  | char c => exact List.mem_singleton.mp h
  | null | clearLine | interrupt | switch => cases h

/-- The scancodes of the modifiers and of the keys without a character. -/
def silentCodes : List ℕ := [58, 42, 170, 54, 182, 29, 157, 91, 56, 184, 92, 93]

/-- The scancodes that are commands with Ctrl or Alt. -/
def commandCodes : List ℕ := [38, 46, 59, 60, 61]

theorem mem_silentCodes :
    n ∈ silentCodes ↔ n = 58 ∨ n = 42 ∨ n = 170 ∨ n = 54 ∨ n = 182 ∨ n = 29 ∨ n = 157 ∨ n = 91 ∨
      n = 56 ∨ n = 184 ∨ n = 92 ∨ n = 93 := by
  simp only [silentCodes, List.mem_cons, List.not_mem_nil, or_false]

theorem mem_commandCodes :
    n ∈ commandCodes ↔ n = 38 ∨ n = 46 ∨ n = 59 ∨ n = 60 ∨ n = 61 := by
  simp only [commandCodes, List.mem_cons, List.not_mem_nil, or_false]

/-- The cases of the `switch`: a code that yields nothing, a command or the character of its key,
and a character. -/
inductive Decodes (env : Env) (kb : Keyboard) (inpack : Byte) : Keyboard → KeyAction → Prop
  | silent {flags : Keyboard} (hcode : inpack.toNat ∈ silentCodes) :
      Decodes env kb inpack flags .null
  | command {action : KeyAction} (hcode : inpack.toNat ∈ commandCodes)
      (hchar : ∀ c, action = .char c → c = lookup env kb inpack.toNat) :
      Decodes env kb inpack kb action
  | char (hsilent : inpack.toNat ∉ silentCodes) (hcommand : inpack.toNat ∉ commandCodes) :
      Decodes env kb inpack kb (.char (lookup env kb inpack.toNat))

theorem decode_cases {flags : Keyboard} {action : KeyAction}
    (h : decode env kb inpack = (flags, action)) : Decodes env kb inpack flags action := by
  rw [decode] at h
  split at h
  case h_18 =>
    cases h
    refine .char ?_ ?_
    · simp only [mem_silentCodes, not_or]
      and_intros
      all_goals assumption
    · simp only [mem_commandCodes, not_or]
      and_intros
      all_goals assumption
  case h_13 hcode | h_14 hcode | h_15 hcode | h_16 hcode | h_17 hcode =>
    cases h
    refine .command (by simp [commandCodes, hcode]) fun c hc => ?_
    -- behind the commands the key is looked up
    simp only [case38, case46, case59, case60, case61] at hc
    split_ifs at hc
    cases hc
    rw [hcode]
  all_goals
    cases h
    exact .silent (by simp [silentCodes, *])

/-- A byte in the table that is not silent. -/
theorem InTable.lookup (h : InTable kb inpack) (hsilent : inpack.toNat ∉ silentCodes) :
    inpack.toNat < 62 ∨ inpack.toNat < 122 ∧ ¬ kb.Shifts := by
  rw [mem_silentCodes] at hsilent
  simp only [InTable, List.mem_cons, List.not_mem_nil, or_false] at h
  rcases h with hrelease | hwindows | hlookup
  · omega
  · omega
  · exact hlookup

/-- The loads stay in the table. -/
theorem forall_loads_lt_iff : (∀ i ∈ loads env kb inpack, i < 122) ↔ InTable kb inpack := by
  rw [loads]
  rcases hkey : decode env kb inpack with ⟨flags, action⟩
  cases decode_cases hkey with
  | silent hcode =>
    -- nothing is looked up
    refine iff_of_true (fun i hi => by cases hi) ?_
    rw [mem_silentCodes] at hcode
    simp only [InTable, List.mem_cons, List.not_mem_nil, or_false]
    omega
  | command hcode hchar =>
    rw [mem_commandCodes] at hcode
    -- the commands are keys of the lower half
    have hlower : inpack.toNat < 62 := by omega
    refine iff_of_true (fun i hi => ?_) (Or.inr (Or.inr (Or.inl hlower)))
    rw [KeyAction.mem_lookups hi]
    exact (lookupIndex_lt_iff _ _).mpr (Or.inl hlower)
  | char hsilent hcommand =>
    simp only [KeyAction.lookups, List.mem_singleton, forall_eq, lookupIndex_lt_iff]
    exact ⟨fun h => Or.inr (Or.inr h), fun h => h.lookup hsilent⟩

/-- What lies behind the table does not reach a lookup in it. -/
theorem decode_charactersAfter (h : InTable kb inpack) (after : Buffer) :
    decode { env with charactersAfter := after } kb inpack = decode env kb inpack := by
  -- an index in the table does not fall back to what lies behind it
  have hlookup : ∀ n, lookupIndex kb n < 122 →
      lookup { env with charactersAfter := after } kb n = lookup env kb n := by
    intro n hn
    have hlength : characters.length = 122 := by decide +kernel
    rw [lookup_eq, lookup_eq, characterAt, characterAt, List.getD_eq_getElem?_getD,
      List.getD_eq_getElem?_getD, List.getElem?_eq_getElem (by omega), Option.getD_some,
      Option.getD_some]
  have hlower : ∀ n < 62, lookup { env with charactersAfter := after } kb n = lookup env kb n :=
    fun n hn => hlookup n ((lookupIndex_lt_iff kb n).mpr (Or.inl hn))
  have hindex : inpack.toNat ∉ silentCodes → lookupIndex kb inpack.toNat < 122 := by
    intro hsilent
    rw [lookupIndex_lt_iff]
    exact h.lookup hsilent
  rw [decode, decode]
  split
  case h_13 | h_14 | h_15 | h_16 | h_17 =>
    simp only [case38, case46, case59, case60, case61, hlower _ (by decide : 38 < 62),
      hlower _ (by decide : 46 < 62), hlower _ (by decide : 59 < 62),
      hlower _ (by decide : 60 < 62), hlower _ (by decide : 61 < 62)]
  case h_18 =>
    rw [hlookup _ (hindex ?_)]
    simp only [mem_silentCodes, not_or]
    and_intros
    all_goals assumption
  all_goals rfl

/-- A release in the table is that of a modifier. -/
theorem InTable.release (h : InTable kb inpack) (hrelease : 128 ≤ inpack.toNat) :
    (decode env kb inpack).2 = .null := by
  rcases hkey : decode env kb inpack with ⟨flags, action⟩
  cases decode_cases hkey with
  | silent hcode => rfl
  | command hcode hchar =>
    rw [mem_commandCodes] at hcode
    omega
  | char hsilent hcommand =>
    rcases h.lookup hsilent with hlower | ⟨hupper, -⟩ <;> omega

theorem InTable.onlyPresses (h : InTable kb inpack) : OnlyPresses env kb inpack := by
  rintro k r k' rfl hk
  refine ⟨fun after => ?_, fun hrelease => ?_⟩
  · rw [← hk, kbd, kbd, decode_charactersAfter h]
    rfl
  · -- without a character the handler has nothing to append
    rw [lines_kbd hk, h.release hrelease]
    exact Function.update_eq_self _ _

theorem WellDecoded.inTable {stream : List Byte} (h : WellDecoded env kb stream) :
    Along (flagsStep env) InTable kb stream :=
  h.loads.mono fun _ _ hloads => forall_loads_lt_iff.mp hloads

end

/-- A stream of scancodes, from any state of the modifiers on, is decoded with the table alone, and
by its presses alone, exactly if every byte of it is in the table. -/
theorem wellDecoded_iff {env : Env} {kb : Keyboard} {stream : List Byte} :
    WellDecoded env kb stream ↔ Along (flagsStep env) InTable kb stream := by
  constructor
  · exact WellDecoded.inTable
  · intro h
    refine ⟨h.mono fun kb b hb => forall_loads_lt_iff.mpr hb,
      h.mono fun kb b hb hrelease c hc => ?_, h.mono fun kb b hb => hb.onlyPresses⟩
    rw [hb.release hrelease] at hc
    cases hc

/-- A machine with the letter `X` behind the table. -/
def lettersBehind : Env := { sampleEnv with charactersAfter := fun _ => 0x58#8 }

/-- The key `a` is pressed and released: the release loads index 158, and a second character is
appended to the line. -/
theorem not_wellDecoded_release :
    158 ∈ loads lettersBehind ⟨false, false, false, false, false⟩ 0x9E#8 ∧
      (∃ r k₀ k, entry lettersBehind zeroRam = some (r, k₀) ∧
        exec (systemStep lettersBehind) k₀ [.read .armFlag, .key 0x1E#8, .key 0x9E#8] = some k ∧
        (k.con.terms 0).terminalCnt = 2 ∧ (k.con.terms 0).terminalBuf 0 = 0x61#8 ∧
        (k.con.terms 0).terminalBuf 1 = 0x58#8) ∧
      ¬ WellDecoded lettersBehind ⟨false, false, false, false, false⟩ [0x1E#8, 0x9E#8] := by
  refine ⟨by decide +kernel, ?_, fun h => ?_⟩
  · have hrun : (entry lettersBehind zeroRam).any fun x =>
        (exec (systemStep lettersBehind) x.2 [.read .armFlag, .key 0x1E#8, .key 0x9E#8]).any
          fun k => decide ((k.con.terms 0).terminalCnt = 2 ∧
            (k.con.terms 0).terminalBuf 0 = 0x61#8 ∧ (k.con.terms 0).terminalBuf 1 = 0x58#8) := by
      decide +kernel
    simp only [Option.any_eq_true, decide_eq_true_eq] at hrun
    obtain ⟨⟨r, k₀⟩, hboot, k, hk, hline⟩ := hrun
    exact ⟨r, k₀, k, hboot, hk, hline⟩
  · -- 158 is behind the table, and no case of the `switch`
    exact absurd h.inTable (by decide +kernel)

end Ece391
