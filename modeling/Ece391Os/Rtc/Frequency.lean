import Ece391Os.Rtc.Device
import Mathlib.Tactic.IntervalCases

/-!
# The rate of the clock

`write_rtc` of `rtc.c` copies `nbytes` bytes of the caller's buffer into a local of four bytes,
which has not been initialized, and looks the value up in a table of ten rates.

* `writeRtc` is the call, as a function of what lies on the stack from the local on.
* `ValidatesRequest`: only a request of four bytes with a rate is accepted and sets the low half of
  register A; the others are refused; the stack does not matter.
* `validatesRequest_iff`: this is so exactly for four bytes, and for fewer bytes if they begin none
  of the rates.
-/

namespace Ece391

/-- The `switch` of `write_rtc`: `RTC_FREQ_2` to `RTC_FREQ_1024`. -/
def rtcFreq (freq : Word) : Option Byte :=
  match freq.toNat with
  | 2 => some 0x0F#8
  | 4 => some 0x0E#8
  | 8 => some 0x0D#8
  | 16 => some 0x0C#8
  | 32 => some 0x0B#8
  | 64 => some 0x0A#8
  | 128 => some 0x09#8
  | 256 => some 0x08#8
  | 512 => some 0x07#8
  | 1024 => some 0x06#8
  | _ => none

/-- `memcpy(&freq, buf, nbytes)`, where `stack` is the memory from the local `freq` on. -/
def localFreq (buf stack : Buffer) (n : ℕ) : Word := (stack.overwrite buf n).leWord 0

/-- `write_rtc`. `stack` is the memory from the local `freq` on, before the copy. Behind the local
lies the frame of the call: a copy that reaches it leaves no defined result. -/
def writeRtc (buf : Buffer) (nbytes : Word) (stack : Buffer) (c : Cmos) : Option (Word × Cmos) :=
  if 4 < nbytes.toNat then none
  else
    let freq := localFreq buf stack nbytes.toNat
    let c := c.outb 0x8A#8 Cmos.rtcPort1
    let prev := c.inb &&& 0xF0#8
    match rtcFreq freq with
    | some rate => some (0#32, (c.outb 0x8A#8 Cmos.rtcPort1).outb (prev ||| rate) Cmos.rtcPort2)
    | none => some (-1#32, c)

/-- `RTC_REG_A` -/
def rtcRegA : Byte := 0x0A#8

/-- The rate of a request: four bytes with the little-endian value `2 ^ k`. -/
def Requests (buf : Buffer) (nbytes : Word) (k : ℕ) : Prop :=
  nbytes = 4#32 ∧ 1 ≤ k ∧ k ≤ 10 ∧ buf.leWord 0 = BitVec.ofNat 32 (2 ^ k)

/-- Whatever the stack and the registers hold: the call stores in its local only, accepts the
requests and sets their rate in register A, refuses everything else without a change of a register,
and looks at the first `nbytes` bytes only. -/
structure ValidatesRequest (buf : Buffer) (nbytes : Word) : Prop where
  copies : ∀ st ∈ Buffer.copyStores buf nbytes.toNat, st.1 < 4
  accepts : ∀ k, Requests buf nbytes k → ∀ stack c, ∃ c',
    writeRtc buf nbytes stack c = some (0#32, c') ∧
      (c'.regs rtcRegA).toNat % 16 = 16 - k ∧
      (c'.regs rtcRegA).toNat / 16 = (c.regs rtcRegA).toNat / 16
  refuses : (¬ ∃ k, Requests buf nbytes k) → ∀ stack c, ∃ c',
    writeRtc buf nbytes stack c = some (-1#32, c') ∧ c'.regs = c.regs
  reads : ∀ buf' stack stack' c, (∀ j < nbytes.toNat, buf' j = buf j) →
    writeRtc buf nbytes stack c = writeRtc buf' nbytes stack' c

/-- Byte `j` of the rate `2 ^ k`. -/
def rateByte (k j : ℕ) : Byte := (BitVec.ofNat 32 (2 ^ k)).extractLsb' (8 * j) 8

/-- The bytes of a request begin like a rate. -/
def BeginsRate (buf : Buffer) (n : ℕ) : Prop :=
  ∃ k, 1 ≤ k ∧ k ≤ 10 ∧ ∀ j < n, buf j = rateByte k j

section

variable {buf buf' stack : Buffer} {nbytes freq : Word} {rate : Byte} {c c' : Cmos} {n : ℕ}

/-- The table of the rates. -/
theorem rtcFreq_eq_some :
    rtcFreq freq = some rate ↔
      ∃ k, 1 ≤ k ∧ k ≤ 10 ∧ freq = BitVec.ofNat 32 (2 ^ k) ∧ rate = BitVec.ofNat 8 (16 - k) := by
  constructor
  · intro h
    rw [rtcFreq] at h
    split at h
    case h_11 => cases h
    all_goals
      rename_i hfreq
      cases h
      -- each of the ten cases has its own exponent
      refine ⟨Nat.log2 freq.toNat, ?_, ?_, BitVec.eq_of_toNat_eq ?_, ?_⟩ <;> rw [hfreq] <;> decide
  · rintro ⟨k, hpos, hle, rfl, rfl⟩
    interval_cases k <;> rfl

/-- A value that is none of the rates. -/
theorem rtcFreq_eq_none (h : ∀ k, 1 ≤ k → k ≤ 10 → freq ≠ BitVec.ofNat 32 (2 ^ k)) :
    rtcFreq freq = none := by
  rw [Option.eq_none_iff_forall_ne_some]
  intro rate hrate
  obtain ⟨k, hpos, hle, hfreq, -⟩ := rtcFreq_eq_some.mp hrate
  exact h k hpos hle hfreq

theorem writeRtc_of_some (hn : nbytes.toNat ≤ 4)
    (hrate : rtcFreq (localFreq buf stack nbytes.toNat) = some rate) :
    ∃ c', writeRtc buf nbytes stack c = some (0#32, c') ∧
      c'.regs = Function.update c.regs rtcRegA ((c.regs rtcRegA &&& 0xF0#8) ||| rate) := by
  rw [writeRtc, if_neg (by omega)]
  simp only [hrate]
  exact ⟨_, rfl, rfl⟩

theorem writeRtc_of_none (hn : nbytes.toNat ≤ 4)
    (hrate : rtcFreq (localFreq buf stack nbytes.toNat) = none) :
    writeRtc buf nbytes stack c = some (-1#32, c.outb 0x8A#8 Cmos.rtcPort1) := by
  rw [writeRtc, if_neg (by omega)]
  simp only [hrate]

/-- The low half of a register is replaced, and the high half stays. -/
theorem toNat_setLow (prev : Byte) {low : ℕ} (hlow : low < 16) :
    ((prev &&& 0xF0#8) ||| BitVec.ofNat 8 low).toNat = prev.toNat / 16 * 16 + low := by
  -- a register has 256 values and its low half 16, so the sum is checked for all
  have hall : ∀ (prev : Fin 256) (low : Fin 16),
      ((BitVec.ofFin prev &&& 0xF0#8) ||| BitVec.ofNat 8 low.val).toNat =
        prev.val / 16 * 16 + low.val := by
    decide +kernel
  exact hall prev.toFin ⟨low, hlow⟩

/-- The local after a copy of four bytes. -/
theorem localFreq_four : localFreq buf stack 4 = buf.leWord 0 :=
  Buffer.leWord_overwrite _ _ _ _ le_rfl

/-- A byte of the local that has been copied. -/
theorem localFreq_byte {j : ℕ} (hj : j < n) (hn : n ≤ 4) :
    (localFreq buf stack n).extractLsb' (8 * j) 8 = buf j := by
  rw [localFreq, Buffer.leWord_byte _ _ (by omega), Nat.zero_add, Buffer.overwrite_of_lt _ _ _ hj]

/-- The stack can complete the bytes of the request to a rate. -/
theorem localFreq_rateByte {k : ℕ} (hbytes : ∀ j < n, buf j = rateByte k j) :
    localFreq buf (rateByte k) n = BitVec.ofNat 32 (2 ^ k) := by
  -- the stack holds the rate itself, and the copy does not change it
  have hsame : (fun j => rateByte k j) = Buffer.overwrite (rateByte k) buf n := by
    funext j
    by_cases hj : j < n
    · rw [Buffer.overwrite_of_lt _ _ _ hj, hbytes j hj]
    · rw [Buffer.overwrite_of_le _ _ _ (not_lt.mp hj)]
  rw [localFreq, ← hsame]
  exact Buffer.leWord_bytes _

/-- A shorter request is looked up as a rate only if it begins like one. -/
theorem rtcFreq_localFreq_of_not_beginsRate (hn : n ≤ 4) (hno : ¬ BeginsRate buf n) :
    rtcFreq (localFreq buf stack n) = none := by
  apply rtcFreq_eq_none
  intro k hpos hle hfreq
  refine hno ⟨k, hpos, hle, fun j hj => ?_⟩
  have hbyte : (localFreq buf stack n).extractLsb' (8 * j) 8 = buf j := localFreq_byte hj hn
  rw [hfreq] at hbyte
  exact hbyte.symm

/-- A request of four bytes. -/
theorem validatesRequest_four (buf : Buffer) : ValidatesRequest buf 4#32 := by
  have hn : (4#32).toNat = 4 := rfl
  refine ⟨(Buffer.forall_copyStores_lt _ _).mpr le_rfl, ?_, ?_, ?_⟩
  · rintro k ⟨-, hpos, hle, hvalue⟩ stack c
    have hrate : rtcFreq (localFreq buf stack (4#32).toNat) = some (BitVec.ofNat 8 (16 - k)) := by
      rw [hn, localFreq_four, hvalue]
      exact rtcFreq_eq_some.mpr ⟨k, hpos, hle, rfl, rfl⟩
    obtain ⟨c', hcall, hregs⟩ := writeRtc_of_some (c := c) le_rfl hrate
    refine ⟨c', hcall, ?_⟩
    rw [hregs, Function.update_self, toNat_setLow _ (by omega)]
    constructor <;> omega
  · intro hno stack c
    refine ⟨_, writeRtc_of_none le_rfl ?_, rfl⟩
    rw [hn, localFreq_four]
    apply rtcFreq_eq_none
    intro k hpos hle hvalue
    exact hno ⟨k, rfl, hpos, hle, hvalue⟩
  · intro buf' stack stack' c hbuf
    -- the four bytes come from the request alone
    have hlocal : localFreq buf stack 4 = localFreq buf' stack' 4 := by
      rw [localFreq_four, localFreq_four, Buffer.leWord, Buffer.leWord, hbuf 0 (by decide),
        hbuf 1 (by decide), hbuf 2 (by decide), hbuf 3 (by decide)]
    rw [writeRtc, writeRtc, hn, hlocal]

/-- A shorter or longer request is not accepted. -/
theorem ValidatesRequest.not_accepted (h : ValidatesRequest buf nbytes) (hfour : nbytes ≠ 4#32) :
    writeRtc buf nbytes stack c ≠ some (0#32, c') := by
  intro haccept
  obtain ⟨c'', hrefuse, -⟩ := h.refuses (fun ⟨k, hreq⟩ => hfour hreq.1) stack c
  rw [haccept] at hrefuse
  exact absurd (Prod.mk.inj (Option.some.inj hrefuse)).1 (by decide)

end

/-- A call of `write_rtc` validates its request, whatever the stack and the registers hold, exactly
if the request has four bytes, or fewer bytes that begin none of the rates. -/
theorem validatesRequest_iff {buf : Buffer} {nbytes : Word} :
    ValidatesRequest buf nbytes ↔
      nbytes = 4#32 ∨ nbytes.toNat < 4 ∧ ¬ BeginsRate buf nbytes.toNat := by
  constructor
  · intro h
    have hle : nbytes.toNat ≤ 4 := (Buffer.forall_copyStores_lt _ _).mp h.copies
    by_cases hfour : nbytes = 4#32
    · exact Or.inl hfour
    · have hlt : nbytes.toNat < 4 := by
        refine lt_of_le_of_ne hle fun heq => hfour (BitVec.eq_of_toNat_eq heq)
      refine Or.inr ⟨hlt, ?_⟩
      rintro ⟨k, hpos, hk, hbytes⟩
      -- with the rest of the rate on the stack, the call accepts
      have hrate := rtcFreq_eq_some.mpr ⟨k, hpos, hk, localFreq_rateByte hbytes, rfl⟩
      obtain ⟨c', haccept, -⟩ := writeRtc_of_some (c := ⟨0#8, fun _ => 0#8⟩) hle hrate
      exact h.not_accepted hfour haccept
  · rintro (rfl | ⟨hlt, hno⟩)
    · exact validatesRequest_four buf
    · -- no stack can complete the bytes to a rate
      have hnone : ∀ stack, rtcFreq (localFreq buf stack nbytes.toNat) = none := fun stack =>
        rtcFreq_localFreq_of_not_beginsRate hlt.le hno
      have hfour : nbytes ≠ 4#32 := by
        rintro rfl
        exact absurd hlt (by decide)
      refine ⟨(Buffer.forall_copyStores_lt _ _).mpr hlt.le, fun k hreq => absurd hreq.1 hfour,
        fun _ stack c => ⟨_, writeRtc_of_none hlt.le (hnone stack), rfl⟩,
        fun buf' stack stack' c hbuf => ?_⟩
      -- the same bytes begin none of the rates either
      have hno' : ¬ BeginsRate buf' nbytes.toNat := by
        rintro ⟨k, hpos, hk, hbytes⟩
        exact hno ⟨k, hpos, hk, fun j hj => (hbuf j hj).symm.trans (hbytes j hj)⟩
      rw [writeRtc_of_none hlt.le (hnone stack),
        writeRtc_of_none hlt.le (rtcFreq_localFreq_of_not_beginsRate hlt.le hno')]

/-- A request of one byte, 2, is accepted over a stack of zeros and refused over another one. A
request of eight bytes with the rate 2 is stored over the frame. -/
theorem not_validatesRequest_oneByte :
    (∃ c', writeRtc (Buffer.ofList [2#8] fun _ => 0#8) 1#32 (fun _ => 0#8) ⟨0#8, fun _ => 0x26#8⟩ =
        some (0#32, c') ∧ c'.regs rtcRegA = 0x2F#8) ∧
      (writeRtc (Buffer.ofList [2#8] fun _ => 0#8) 1#32 (fun _ => 0xFF#8)
        ⟨0#8, fun _ => 0x26#8⟩).map Prod.fst = some (-1#32) ∧
      ¬ ValidatesRequest (Buffer.ofList [2#8] fun _ => 0#8) 1#32 ∧
      (7, 0#8) ∈ Buffer.copyStores (Buffer.ofList [2#8] fun _ => 0#8) 8 ∧
      ¬ ValidatesRequest (Buffer.ofList [2#8] fun _ => 0#8) 8#32 := by
  have haccept : ∃ c', writeRtc (Buffer.ofList [2#8] fun _ => 0#8) 1#32 (fun _ => 0#8)
      ⟨0#8, fun _ => 0x26#8⟩ = some (0#32, c') ∧ c'.regs rtcRegA = 0x2F#8 := ⟨_, rfl, rfl⟩
  refine ⟨haccept, rfl, fun h => ?_, by decide, fun h => ?_⟩
  · -- one byte is no request
    obtain ⟨c', hcall, -⟩ := haccept
    exact h.not_accepted (by decide) hcall
  · exact absurd (h.copies (7, 0#8) (by decide)) (by decide)

end Ece391
