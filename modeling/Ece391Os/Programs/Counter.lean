import Ece391Os.Kernel.Itoa
import Ece391Os.Programs.Shell

/-!
# The counter

`ece391counter.c`, with `ece391_itoa` and `ece391_strrev` of `ece391support.c`. The program reads a
line and counts up to a number that the line selects.

* `ece391Itoa_eq`: the library of the programs converts numbers as the kernel does.
* `counterMain_counts`: whatever has been typed, the program writes the decimal numerals from 1 up
  to the selected number, one in each line, or refuses the line. An empty line selects 0.
-/

namespace Ece391

open Numeral

/-! ## The program -/

/-- `ece391_strrev`. A string of at most one character is returned early. -/
def ece391Strrev (s : Buffer) : Option Buffer := do
  let len ← ece391Strlen s
  let stop : ℤ := len - 1
  if stop ≤ 0 then return s
  else return strrevLoop s 0 stop

/-- `ece391_itoa` -/
def ece391Itoa (value : Word) (buf : Buffer) (radix : Word) : Option Buffer :=
  if value = 0#32 then some (Function.update (Function.update buf 0 0x30#8) 1 0#8)
  else do
    let (newbuf, buf) ← itoaLoop radix 32 value 0 buf
    ece391Strrev (Function.update buf newbuf 0#8)

/-- `ece391_fdputs(1, s)`: what the terminal gets. -/
def putString (s : Buffer) (descs : DescTable) : Option (List Byte) := do
  let len ← ece391Strlen s
  let (_, out) ← ece391Write 1#32 s (BitVec.ofNat 32 len) descs
  return out

/-- The loop of `main`, with `rounds` numbers to go behind `i`. -/
def counterLoop (descs : DescTable) : ℕ → Word → Buffer → Option (List Byte)
  | 0, _, _ => some []
  | rounds + 1, i, buf => do
    let buf ← ece391Itoa (i + 1#32) buf 10#32
    let line ← putString buf descs
    let rest ← counterLoop descs rounds (i + 1#32) buf
    return line ++ putLiteral "\n" descs ++ rest

/-- The `switch` of `main`. `max` has been set to 0. -/
def counterMax (b : Byte) : ℕ :=
  if b = 0x30#8 then 100
  else if b = 0x31#8 then 10000
  else if b = 0x32#8 then 100000
  else 0

/-- What the program asks for. -/
def counterPrompt : String := "Enter the Test Number: (0): 100, (1): 10000, (2): 100000\n"

/-- `main`, for the line that `read` returns: its value and what the terminal gets. -/
def counterMain (descs : DescTable) (l : LineBuffer) (buf : Buffer) :
    Option (Word × List Byte) := do
  let prompt := putLiteral counterPrompt descs
  let (cnt, stores, _) := copyOut l 1023
  let buf := buf.replay stores
  if cnt = -1 then
    return (3#32, prompt ++ putLiteral "Can't read the number from keyboard.\n" descs)
  else
    let buf := Function.update buf cnt.toNat 0#8
    let len ← ece391Strlen buf
    if 1 < len ∨ (len = 1 ∧ (buf 0 < 0x30#8 ∨ 0x32#8 < buf 0)) then
      return (0#32, prompt ++ putLiteral "Wrong Choice!\n" descs)
    else
      let out ← counterLoop descs (counterMax (buf 0)) 0#32 buf
      return (0#32, prompt ++ out)

variable {descs : DescTable} {l : LineBuffer} {text : List Byte} {s : Buffer}

/-! ## The library -/

/-- The early return leaves out a loop without rounds. -/
theorem ece391Strrev_eq (s : Buffer) : ece391Strrev s = strrev s := by
  unfold ece391Strrev strrev
  refine congrArg (Option.bind (strlen s)) (funext fun len => ?_)
  dsimp only
  split_ifs with hstop
  · rw [strrevLoop, if_neg (by omega)]
  · rfl

theorem ece391Itoa_eq (value : Word) (buf : Buffer) (radix : Word) :
    ece391Itoa value buf radix = itoa value buf radix := by
  simp only [ece391Itoa, itoa, ece391Strrev_eq]

/-- A string is written whole. -/
theorem putString_eq (hstdout : descs 1 = terminalDesc) (h : Spells s text)
    (hlen : text.length < 2147483648) : putString s descs = some text := by
  have hstrlen : ece391Strlen s = some text.length := h.1
  simp only [putString, hstrlen, Option.bind_eq_bind, Option.bind_some, ece391Write_stdout hstdout]
  rw [FsImage.toInt_ofNat_of_lt hlen, Int.toNat_natCast, h.2]
  rfl

/-! ## Counting -/

/-- The lines are the decimal numerals of the numbers behind `i`. -/
def CountsFrom (i : ℕ) (lines : List (List Byte)) : Prop :=
  ∀ j, (hj : j < lines.length) → ∃ ds, IsNumeral 10 (i + j + 1) ds ∧ lines[j] = digitText ds

/-- What the terminal gets of the lines. -/
def linesText (lines : List (List Byte)) : List Byte := lines.flatMap (· ++ [0x0A#8])

theorem CountsFrom.cons {i : ℕ} {line : List Byte} {lines : List (List Byte)} {ds : List ℕ}
    (hds : IsNumeral 10 (i + 1) ds) (hline : line = digitText ds) (h : CountsFrom (i + 1) lines) :
    CountsFrom i (line :: lines) := by
  intro j hj
  cases j with
  | zero => exact ⟨ds, hds, hline⟩
  | succ j =>
    obtain ⟨ds', hds', hline'⟩ := h j (Nat.lt_of_succ_lt_succ hj)
    refine ⟨ds', ?_, hline'⟩
    have hsum : i + (j + 1) + 1 = i + 1 + j + 1 := by omega
    rwa [hsum]

/-- One round of the loop writes one numeral. -/
theorem counterLoop_eq (hstdout : descs 1 = terminalDesc) (rounds : ℕ) (i : Word)
    (hi : i.toNat + rounds < 4294967296) (buf : Buffer) :
    ∃ lines, counterLoop descs rounds i buf = some (linesText lines) ∧ lines.length = rounds ∧
      CountsFrom i.toNat lines := by
  have hnewline : putLiteral "\n" descs = [0x0A#8] := putLiteral_eq hstdout (by decide)
  induction rounds generalizing i buf with
  | zero => exact ⟨[], rfl, rfl, fun j hj => absurd hj j.not_lt_zero⟩
  | succ rounds ih =>
    have hnext : (i + 1#32).toNat = i.toNat + 1 := by
      rw [BitVec.toNat_add]
      exact Nat.mod_eq_of_lt (by show i.toNat + 1 < _; omega)
    obtain ⟨buf', ds, hitoa, hds, hspells⟩ :=
      itoa_spells 10#32 (by decide) (by decide) (i + 1#32) buf
    rw [← ece391Itoa_eq] at hitoa
    rw [hnext] at hds
    -- a word has at most ten digits
    have hlen : (digitText ds).length < 2147483648 := by
      have hten : i.toNat + 1 < 10 ^ 10 := by omega
      have hle := hds.length_le (w := 10) (by decide) (by decide) hten
      rw [digitText, List.length_map]
      omega
    obtain ⟨lines, hloop, hcount, hlines⟩ := ih (i + 1#32) (by omega) buf'
    rw [hnext] at hlines
    refine ⟨digitText ds :: lines, ?_, congrArg (· + 1) hcount, .cons hds rfl hlines⟩
    simp only [counterLoop, hitoa, putString_eq hstdout hspells hlen, hloop, hnewline,
      Option.bind_eq_bind, Option.bind_some]
    rfl

/-- How far the program counts for a line; `none` if it refuses the line. -/
def counterChoice : List Byte → Option ℕ
  | [] => some 0
  | [b] => if b = 0x30#8 ∨ b = 0x31#8 ∨ b = 0x32#8 then some (counterMax b) else none
  | _ => none

/-- What the program answers to a line. -/
def CounterAnswers (text out : List Byte) : Prop :=
  match counterChoice text with
  | none => out = ascii "Wrong Choice!\n"
  | some n => ∃ lines, out = linesText lines ∧ lines.length = n ∧ CountsFrom 0 lines

/-- The read leaves the text that has been typed. -/
theorem ReadsText.spells (h : ReadsText l text) (buf : Buffer) :
    Spells (Function.update (buf.replay (copyOut l 1023).2.1) text.length 0#8) text := by
  obtain ⟨-, hlen, hbuf⟩ := h.copyOut_spec buf
  rw [hbuf]
  apply spells_of_bytes h.nul (by omega)
  · intro j hj
    rw [Function.update_of_ne hj.ne, Buffer.overwrite_of_lt _ _ _ (by omega),
      Buffer.ofList_of_lt _ _ hj]
  · exact Function.update_self _ _ _

/-- The test of `main` refuses the lines that select nothing. -/
theorem counterChoice_eq (hs : Spells s text) :
    counterChoice text =
      if 1 < text.length ∨ (text.length = 1 ∧ (s 0 < 0x30#8 ∨ 0x32#8 < s 0)) then none
      else some (counterMax (s 0)) := by
  match text with
  | [] =>
    have hnul : s 0 = 0#8 := hs.eq_nul
    rw [hnul]
    rfl
  | [b] =>
    have hb : s 0 = b := hs.eq_getElem (j := 0) Nat.one_pos
    have hrange : (b < 0x30#8 ∨ 0x32#8 < b) ↔ ¬ (b = 0x30#8 ∨ b = 0x31#8 ∨ b = 0x32#8) := by
      simp only [BitVec.lt_def, ← BitVec.toNat_inj, BitVec.toNat_ofNat]
      omega
    rw [hb, counterChoice]
    simp only [List.length_singleton, lt_irrefl, true_and, false_or, hrange]
    split_ifs with h <;> rfl
  | b :: c :: rest =>
    rw [if_pos (Or.inl (by simp))]
    rfl

/-- Whatever has been typed, the program counts up to the number that the line selects, in decimal
numerals and one in each line, or refuses the line. -/
theorem counterMain_counts (hstdout : descs 1 = terminalDesc) (hread : ReadsText l text)
    (buf : Buffer) :
    ∃ out, counterMain descs l buf = some (0#32, ascii counterPrompt ++ out) ∧
      CounterAnswers text out := by
  have hspells := hread.spells buf
  obtain ⟨hcnt, hlen, -⟩ := hread.copyOut_spec buf
  have hfailed : ¬ (text.length : ℤ) = -1 := by omega
  have hstrlen : ece391Strlen (Function.update (buf.replay (copyOut l 1023).2.1) text.length 0#8) =
      some text.length := hspells.1
  have hprompt : putLiteral counterPrompt descs = ascii counterPrompt :=
    putLiteral_eq hstdout (by decide +kernel)
  have hwrong : putLiteral "Wrong Choice!\n" descs = ascii "Wrong Choice!\n" :=
    putLiteral_eq hstdout (by decide)
  have hchoice := counterChoice_eq hspells
  simp only [counterMain, hcnt, if_neg hfailed, Int.toNat_natCast]
  generalize Function.update (buf.replay (copyOut l 1023).2.1) text.length 0#8 = line
    at hspells hstrlen hchoice ⊢
  simp only [hstrlen, hprompt, hwrong, Option.bind_eq_bind, Option.bind_some]
  split_ifs at hchoice ⊢ with hrefused
  · exact ⟨_, rfl, by rw [CounterAnswers, hchoice]⟩
  · have hmax : counterMax (line 0) ≤ 100000 := by
      unfold counterMax
      split_ifs <;> decide
    obtain ⟨lines, hloop, hcount, hlines⟩ :=
      counterLoop_eq hstdout (counterMax (line 0)) 0#32 (by show 0 + _ < _; omega) line
    refine ⟨linesText lines, ?_, ?_⟩
    · rw [hloop]
      rfl
    · rw [CounterAnswers, hchoice]
      exact ⟨lines, rfl, hcount, hlines⟩

/-- The line `0` counts to one hundred. -/
theorem counterMain_counts_sample :
    ∃ lines, counterMain (fun _ => terminalDesc) (lineOf [0x30#8]) (fun _ => 0#8) =
        some (0#32, ascii counterPrompt ++ linesText lines) ∧
      lines.length = 100 ∧ CountsFrom 0 lines := by
  have hread : ReadsText (lineOf [0x30#8]) [0x30#8] := readsText_lineOf (by decide) (by decide)
  obtain ⟨out, hmain, hanswer⟩ :=
    @counterMain_counts (fun _ => terminalDesc) _ _ rfl hread (fun _ => 0#8)
  obtain ⟨lines, rfl, hcount, hlines⟩ :
      ∃ lines, out = linesText lines ∧ lines.length = 100 ∧ CountsFrom 0 lines := hanswer
  exact ⟨lines, hmain, hcount, hlines⟩

end Ece391
