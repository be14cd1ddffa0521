import Ece391Os.Kernel.Itoa
import Ece391Os.Lib.Transition

/-!
# `printf`

`printf` walks over its format and hands characters to `putc`. The walk is a machine that reads one
byte of the format a step, and keeps the offsets it has read. Its argument words are above the
format on the stack, and `%s` reads a string anywhere in memory.

* `PrintsNumbers` says what `itoa` and the numeric conversions print, and `printsNumbers` proves it.
* `Piece` is the grammar of formats, and `pieces_run` the run over one.
* `printsFormat_iff`: `printf` stays inside its format exactly if no conversion is cut off at its
  end. `not_printsFormat_percent` is a format of one `%`.
-/

namespace Ece391

open Numeral Relation

/-- `puts`: the characters of a string. -/
def puts (s : Buffer) : Option (List Byte) := (strlen s).map (s.bytesOf 0)

/-- `itoa` into the middle of a buffer, `itoa(value, &buf[off], radix)`. -/
def itoaAt (value : Word) (buf : Buffer) (off : ℕ) (radix : Word) : Option Buffer :=
  (itoa value (fun j => buf (off + j)) radix).map fun tail j =>
    if j < off then buf j else tail (j - off)

/-- The loop that writes zeros up to index 8. -/
def padLoop (buf : Buffer) (i : ℕ) : Buffer :=
  if i < 8 then padLoop (Function.update buf i 0x30#8) (i + 1) else buf
termination_by 8 - i

/-- A call of `printf`. -/
structure PrintfCall where
  mem : Word → Byte
  format : Word
  /-- The argument words. -/
  args : ℕ → Word
  /-- What is in `conv_buf` before each of them is printed. -/
  convBuf : ℕ → Buffer

/-- Where the control is: at the head of the loop, or behind a `%`. -/
inductive PrintfPos
  | outer
  | conversion (alternate : Bool)
  | returned (retval : Word)

/-- The locals of `printf`, what it has printed, and the offsets it has read. -/
structure PrintfState where
  pos : PrintfPos
  buf : ℕ
  esp : ℕ
  out : List Byte
  reads : List ℕ

/-- The byte of the format at an offset. -/
def PrintfCall.byte (call : PrintfCall) : Buffer := fun i =>
  call.mem (call.format + BitVec.ofNat 32 i)

/-- The memory behind an argument word. -/
def PrintfCall.string (call : PrintfCall) (esp : ℕ) : Buffer := fun j =>
  call.mem (call.args esp + BitVec.ofNat 32 j)

/-- A specifier: the characters that it prints and the argument words that it takes. -/
def PrintfCall.convert (call : PrintfCall) (esp : ℕ) (alternate : Bool) (c : Byte) :
    Option (List Byte × ℕ) := do
  let arg := call.args esp
  let convBuf := call.convBuf esp
  if c = 0x25#8 then
    return ([0x25#8], 0)
  else if c = 0x78#8 then
    -- `%x`
    if alternate then
      let convBuf ← itoaAt arg convBuf 8 16#32
      let startingIndex ← strlen fun j => convBuf (8 + j)
      let convBuf := padLoop convBuf startingIndex
      return (← puts fun j => convBuf (startingIndex + j), 1)
    else
      return (← puts (← itoa arg convBuf 16#32), 1)
  else if c = 0x75#8 then
    -- `%u`
    return (← puts (← itoa arg convBuf 10#32), 1)
  else if c = 0x64#8 then
    -- `%d`
    if arg.toInt < 0 then
      return (← puts (← itoaAt (-arg) (Function.update convBuf 0 0x2D#8) 1 10#32), 1)
    else
      return (← puts (← itoa arg convBuf 10#32), 1)
  else if c = 0x63#8 then
    -- `%c`
    return ([arg.setWidth 8], 1)
  else if c = 0x73#8 then
    -- `%s`
    return (← puts (call.string esp), 1)
  else
    return ([], 0)

/-- The state behind a specifier. -/
def PrintfState.converted (s : PrintfState) (text : List Byte) (words : ℕ) : PrintfState where
  pos := .outer
  buf := s.buf + 1
  esp := s.esp + words
  out := s.out ++ text
  reads := s.reads ++ [s.buf]

/-- One byte of the format. There is no next state after the return, and where a string to be
printed does not end. -/
def printfStep (call : PrintfCall) (s : PrintfState) : Option PrintfState :=
  let c := call.byte s.buf
  match s.pos with
  | .returned _ => none
  | .outer =>
    let s := { s with reads := s.reads ++ [s.buf] }
    if c = 0#8 then some { s with pos := .returned (BitVec.ofNat 32 s.buf) }
    else if c = 0x25#8 then some { s with pos := .conversion false, buf := s.buf + 1 }
    else some { s with buf := s.buf + 1, out := s.out ++ [c] }
  | .conversion alternate =>
    if c = 0x23#8 then
      -- `goto format_char_switch`
      some { s with pos := .conversion true, buf := s.buf + 1, reads := s.reads ++ [s.buf] }
    else do
      let (text, words) ← call.convert s.esp alternate c
      return s.converted text words

/-- The state at the call. -/
def printfStart : PrintfState where
  pos := .outer
  buf := 0
  esp := 0
  out := []
  reads := []

/-- A run of `printf`. -/
def PrintfRun (call : PrintfCall) : PrintfState → PrintfState → Prop :=
  ReflTransGen fun s s' => printfStep call s = some s'

section

variable {call : PrintfCall} {s s' : PrintfState} {text front : List Byte} {buf : Buffer}
  {alternate : Bool} {c : Byte} {n : ℕ}

/-! ## Numbers -/

theorem Spells.puts_eq (h : Spells buf text) : puts buf = some text := by
  rw [puts, h.1, Option.map_some, h.2]

/-- A string with characters in front of it. -/
theorem Spells.append_front (hnul : 0#8 ∉ front) (hlen : front.length + text.length < 4294967296)
    (hfront : ∀ j, (hj : j < front.length) → buf j = front[j])
    (h : Spells (fun j => buf (front.length + j)) text) : Spells buf (front ++ text) := by
  apply spells_of_bytes
  · exact fun hmem => (List.mem_append.mp hmem).elim hnul h.nul_notMem
  · rwa [List.length_append]
  · intro j hj
    rcases lt_or_ge j front.length with hlt | hge
    · rw [List.getElem_append_left hlt, hfront j hlt]
    · obtain ⟨i, rfl⟩ := Nat.exists_eq_add_of_le hge
      rw [List.length_append] at hj
      rw [List.getElem_append_right hge, h.eq_getElem (by omega)]
      simp
  · rw [List.length_append]
    exact h.eq_nul

theorem itoaAt_spells (radix : Word) (hr : 2 ≤ radix.toNat) (hr' : radix.toNat ≤ 36) (v : Word)
    (buf : Buffer) (off : ℕ) :
    ∃ buf' ds, itoaAt v buf off radix = some buf' ∧ IsNumeral radix.toNat v.toNat ds ∧
      (∀ j < off, buf' j = buf j) ∧ Spells (fun j => buf' (off + j)) (digitText ds) := by
  obtain ⟨tail, ds, htail, hds, hspells⟩ := itoa_spells radix hr hr' v fun j => buf (off + j)
  refine ⟨_, ds, by rw [itoaAt, htail, Option.map_some], hds, fun j hj => if_pos hj, ?_⟩
  convert hspells using 2 with j
  rw [if_neg (by omega), Nat.add_sub_cancel_left]

theorem padLoop_apply (buf : Buffer) (i j : ℕ) :
    padLoop buf i j = if i ≤ j ∧ j < 8 then 0x30#8 else buf j := by
  induction buf, i using padLoop.induct with
  | case1 buf i hlt ih =>
    rw [padLoop, if_pos hlt, ih]
    by_cases hj : j = i
    · -- this one is stored before the others
      rw [if_neg (by omega), if_pos (by omega), hj, Function.update_self]
    · rw [Function.update_of_ne hj]
      exact if_congr (by omega) rfl rfl
  | case2 buf i hge =>
    rw [padLoop, if_neg hge, if_neg (by omega)]

/-- `%#x`: the zeros in front begin where the numeral, moved back over them, would. -/
theorem padLoop_spells {ds : List ℕ} (hlen : ds.length ≤ 8)
    (h : Spells (fun j => buf (8 + j)) (digitText ds)) :
    Spells (fun j => padLoop buf ds.length (ds.length + j))
      (digitText (List.replicate (8 - ds.length) 0 ++ ds)) := by
  rw [digitText, List.map_append, List.map_replicate]
  apply Spells.append_front
  · intro hmem
    exact absurd (List.eq_of_mem_replicate hmem) (by decide)
  · rw [List.length_replicate, List.length_map]
    omega
  · intro j hj
    rw [List.length_replicate] at hj
    rw [padLoop_apply, if_pos (by omega), List.getElem_replicate]
    rfl
  · -- behind the zeros is the numeral
    have hbehind : (fun j => padLoop buf ds.length (ds.length + (8 - ds.length + j))) =
        fun j => buf (8 + j) := by
      ext j : 1
      rw [padLoop_apply, if_neg (by omega)]
      congr 1
      omega
    rw [List.length_replicate, hbehind]
    exact h

theorem toNat_neg_of_neg {v : Word} (hv : v.toInt < 0) : (-v).toNat = v.toInt.natAbs := by
  have hlt := v.isLt
  rw [BitVec.toNat_neg]
  rw [BitVec.toInt_eq_toNat_cond] at hv ⊢
  split_ifs at hv ⊢ <;> omega

theorem toNat_of_not_neg {v : Word} (hv : ¬ v.toInt < 0) : v.toNat = v.toInt.natAbs := by
  have hlt := v.isLt
  rw [BitVec.toInt_eq_toNat_cond] at hv ⊢
  split_ifs at hv ⊢ <;> omega

theorem step_converted (hpos : s.pos = .conversion alternate) (hc : call.byte s.buf = c)
    (hne : c ≠ 0x23#8) (hconv : call.convert s.esp alternate c = some (text, n)) :
    printfStep call s = some (s.converted text n) := by
  rw [printfStep, hpos]
  simp only [hc, if_neg hne, hconv]
  rfl

/-- `%u` -/
theorem convert_unsigned (call : PrintfCall) (esp : ℕ) (alternate : Bool) :
    ∃ ds, IsNumeral 10 (call.args esp).toNat ds ∧
      call.convert esp alternate 0x75#8 = some (digitText ds, 1) := by
  obtain ⟨buf', ds, hitoa, hds, hspells⟩ :=
    itoa_spells 10#32 (by decide) (by decide) (call.args esp) (call.convBuf esp)
  refine ⟨ds, hds, ?_⟩
  simp [PrintfCall.convert, hitoa, hspells.puts_eq]

/-- `%d`. The negation wraps around, so it is right for the least value too. -/
theorem convert_signed (call : PrintfCall) (esp : ℕ) (alternate : Bool) :
    ∃ ds, IsNumeral 10 (call.args esp).toInt.natAbs ds ∧
      call.convert esp alternate 0x64#8 = some
        (if (call.args esp).toInt < 0 then 0x2D#8 :: digitText ds else digitText ds, 1) := by
  by_cases hneg : (call.args esp).toInt < 0
  · obtain ⟨buf', ds, hitoa, hds, hfront, hspells⟩ := itoaAt_spells 10#32 (by decide)
      (by decide) (-call.args esp) (Function.update (call.convBuf esp) 0 0x2D#8) 1
    -- the minus sign, and the numeral behind it
    have hlen : ds.length ≤ 32 :=
      hds.length_le (by decide) (by decide) ((-call.args esp).isLt.trans (by decide))
    rw [toNat_neg_of_neg hneg] at hds
    have htext : Spells buf' ([0x2D#8] ++ digitText ds) := by
      apply Spells.append_front (by decide) _ _ hspells
      · rw [digitText, List.length_map, List.length_singleton]
        omega
      · intro j hj
        obtain rfl : j = 0 := Nat.lt_one_iff.mp hj
        exact (hfront 0 hj).trans (Function.update_self _ _ _)
    refine ⟨ds, hds, ?_⟩
    simp [PrintfCall.convert, hneg, hitoa, htext.puts_eq]
  · obtain ⟨buf', ds, hitoa, hds, hspells⟩ :=
      itoa_spells 10#32 (by decide) (by decide) (call.args esp) (call.convBuf esp)
    rw [toNat_of_not_neg hneg] at hds
    refine ⟨ds, hds, ?_⟩
    simp [PrintfCall.convert, hneg, hitoa, hspells.puts_eq]

/-- `%x` -/
theorem convert_hex (call : PrintfCall) (esp : ℕ) :
    ∃ ds, IsNumeral 16 (call.args esp).toNat ds ∧
      call.convert esp false 0x78#8 = some (digitText ds, 1) := by
  obtain ⟨buf', ds, hitoa, hds, hspells⟩ :=
    itoa_spells 16#32 (by decide) (by decide) (call.args esp) (call.convBuf esp)
  refine ⟨ds, hds, ?_⟩
  simp [PrintfCall.convert, hitoa, hspells.puts_eq]

/-- `%#x` -/
theorem convert_aligned (call : PrintfCall) (esp : ℕ) :
    ∃ ds, IsPadded 16 8 (call.args esp).toNat ds ∧
      call.convert esp true 0x78#8 = some (digitText ds, 1) := by
  obtain ⟨buf', ds, hitoa, hds, -, hspells⟩ := itoaAt_spells 16#32 (by decide)
    (by decide) (call.args esp) (call.convBuf esp) 8
  have hlen : ds.length ≤ 8 := hds.length_le (by decide) (by decide) (call.args esp).isLt
  have hstart : strlen (fun j => buf' (8 + j)) = some ds.length := by
    rw [hspells.1, digitText, List.length_map]
  refine ⟨_, hds.padded (by decide) hlen, ?_⟩
  simp [PrintfCall.convert, hitoa, hstart, (padLoop_spells hlen hspells).puts_eq]

/-- What is printed of numbers. -/
structure PrintsNumbers : Prop where
  itoa : ∀ (v : Word) (buf : Buffer) (radix : Word), 2 ≤ radix.toNat → radix.toNat ≤ 36 →
    ∃ buf' ds, itoa v buf radix = some buf' ∧ IsNumeral radix.toNat v.toNat ds ∧
      Spells buf' (digitText ds) ∧ readText radix.toNat (digitText ds) = v.toNat
  unsigned : ∀ call s alternate, s.pos = .conversion alternate → call.byte s.buf = 0x75#8 →
    ∃ ds, IsNumeral 10 (call.args s.esp).toNat ds ∧
      printfStep call s = some (s.converted (digitText ds) 1)
  signed : ∀ call s alternate, s.pos = .conversion alternate → call.byte s.buf = 0x64#8 →
    ∃ ds, IsNumeral 10 (call.args s.esp).toInt.natAbs ds ∧
      printfStep call s = some (s.converted
        (if (call.args s.esp).toInt < 0 then 0x2D#8 :: digitText ds else digitText ds) 1)
  hex : ∀ call s, s.pos = .conversion false → call.byte s.buf = 0x78#8 →
    ∃ ds, IsNumeral 16 (call.args s.esp).toNat ds ∧
      printfStep call s = some (s.converted (digitText ds) 1)
  aligned : ∀ call s, s.pos = .conversion true → call.byte s.buf = 0x78#8 →
    ∃ ds, IsPadded 16 8 (call.args s.esp).toNat ds ∧
      printfStep call s = some (s.converted (digitText ds) 1)

/-- The numeral of the value, in every radix of the table and in every conversion. -/
theorem printsNumbers : PrintsNumbers where
  itoa v buf radix hr hr' := by
    obtain ⟨buf', ds, hitoa, hds, hspells⟩ := itoa_spells radix hr hr' v buf
    exact ⟨buf', ds, hitoa, hds, hspells, readText_digitText hr' hds⟩
  unsigned call s alternate hpos hc := by
    obtain ⟨ds, hds, hconvert⟩ := convert_unsigned call s.esp alternate
    exact ⟨ds, hds, step_converted hpos hc (by decide) hconvert⟩
  signed call s alternate hpos hc := by
    obtain ⟨ds, hds, hconvert⟩ := convert_signed call s.esp alternate
    exact ⟨ds, hds, step_converted hpos hc (by decide) hconvert⟩
  hex call s hpos hc := by
    obtain ⟨ds, hds, hconvert⟩ := convert_hex call s.esp
    exact ⟨ds, hds, step_converted hpos hc (by decide) hconvert⟩
  aligned call s hpos hc := by
    obtain ⟨ds, hds, hconvert⟩ := convert_aligned call s.esp
    exact ⟨ds, hds, step_converted hpos hc (by decide) hconvert⟩

end

/-! ## Formats -/

/-- A part of a format: a plain character, or `%`, any number of `#`, and a specifier. -/
inductive Piece
  | plain (c : Byte)
  | conversion (hashes : ℕ) (specifier : Byte)

namespace Piece

/-- The characters of a piece. -/
def text : Piece → List Byte
  | plain c => [c]
  | conversion hashes specifier => 0x25#8 :: (List.replicate hashes 0x23#8 ++ [specifier])

/-- A plain character does not begin a conversion, and a `#` is no specifier. -/
def Legal : Piece → Prop
  | plain c => c ≠ 0x25#8
  | conversion _ specifier => specifier ≠ 0x23#8

/-- The argument words of a piece: one for `%x`, `%u`, `%d`, `%c` and `%s`. -/
def words : Piece → ℕ
  | plain _ => 0
  | conversion _ specifier => if specifier ∈ ascii "xudcs" then 1 else 0

end Piece

/-- A text consists of these pieces. -/
def ConsistsOf (text : List Byte) (ps : List Piece) : Prop :=
  (∀ p ∈ ps, p.Legal) ∧ text = ps.flatMap Piece.text

/-- No conversion is cut off by the end of the format. -/
def Complete (text : List Byte) : Prop := ∃ ps, ConsistsOf text ps

/-- `printf` returns the length of the format, has read no byte behind its NUL, and has taken the
argument words of its conversions. -/
def PrintsFormat (call : PrintfCall) (text : List Byte) : Prop :=
  ∃ s, PrintfRun call printfStart s ∧ s.pos = .returned (BitVec.ofNat 32 text.length) ∧
    (∀ i ∈ s.reads, i ≤ text.length) ∧
      ∀ ps, ConsistsOf text ps → s.esp = (ps.map Piece.words).sum

/-- The format ends inside a conversion. -/
def CutOff (text : List Byte) : Prop :=
  ∃ (ps : List Piece) (hashes : ℕ), (∀ p ∈ ps, p.Legal) ∧
    text = ps.flatMap Piece.text ++ 0x25#8 :: List.replicate hashes 0x23#8

/-- A piece in front of a text. -/
theorem complete_or_cutOff_append {p : Piece} (hp : p.Legal) {text : List Byte}
    (h : Complete text ∨ CutOff text) : Complete (p.text ++ text) ∨ CutOff (p.text ++ text) := by
  rcases h with ⟨ps, hps, htext⟩ | ⟨ps, hashes, hps, htext⟩
  · refine Or.inl ⟨p :: ps, List.forall_mem_cons.mpr ⟨hp, hps⟩, ?_⟩
    rw [List.flatMap_cons, htext]
  · refine Or.inr ⟨p :: ps, hashes, List.forall_mem_cons.mpr ⟨hp, hps⟩, ?_⟩
    rw [List.flatMap_cons, htext, List.append_assoc]

/-- Every text is complete or cut off, and so is every one that continues a conversion. -/
theorem complete_or_cutOff (text : List Byte) :
    (Complete text ∨ CutOff text) ∧ ∀ hashes,
      Complete (0x25#8 :: (List.replicate hashes 0x23#8 ++ text)) ∨
        CutOff (0x25#8 :: (List.replicate hashes 0x23#8 ++ text)) := by
  -- by induction on the text, inside a conversion and outside at once
  induction text with
  | nil =>
    refine ⟨Or.inl ⟨[], List.forall_mem_nil _, rfl⟩, fun hashes => Or.inr ?_⟩
    exact ⟨[], hashes, List.forall_mem_nil _, by rw [List.append_nil]; rfl⟩
  | cons c text ih =>
    obtain ⟨houter, hinside⟩ := ih
    constructor
    · by_cases hc : c = 0x25#8
      · rw [hc]
        exact hinside 0
      · exact complete_or_cutOff_append (p := .plain c) hc houter
    · intro hashes
      by_cases hc : c = 0x23#8
      · -- one `#` more
        have hmore : List.replicate hashes 0x23#8 ++ c :: text =
            List.replicate (hashes + 1) 0x23#8 ++ text := by
          rw [hc, List.replicate_succ', List.append_assoc, List.singleton_append]
        rw [hmore]
        exact hinside (hashes + 1)
      · -- the specifier
        have hpiece := complete_or_cutOff_append (p := .conversion hashes c) hc houter
        rwa [Piece.text, List.cons_append, List.append_assoc, List.singleton_append] at hpiece

/-! ## The run over a format -/

/-- A run that goes on at a later offset, and reads the offsets before it. -/
structure Advances (call : PrintfCall) (s s' : PrintfState) (n words : ℕ) : Prop where
  run : PrintfRun call s s'
  buf : s'.buf = s.buf + n
  esp : s'.esp = s.esp + words
  reads : ∀ i ∈ s'.reads, i ∈ s.reads ∨ i < s.buf + n

section

variable {call : PrintfCall} {s s' s'' : PrintfState} {text : List Byte} {alternate : Bool}
  {c : Byte} {n n' words words' : ℕ}

theorem Advances.refl (call : PrintfCall) (s : PrintfState) : Advances call s s 0 0 :=
  ⟨ReflTransGen.refl, rfl, rfl, fun _ hi => Or.inl hi⟩

theorem Advances.trans (h : Advances call s s' n words) (h' : Advances call s' s'' n' words') :
    Advances call s s'' (n + n') (words + words') where
  run := ReflTransGen.trans h.run h'.run
  buf := by rw [h'.buf, h.buf, Nat.add_assoc]
  esp := by rw [h'.esp, h.esp, Nat.add_assoc]
  reads i hi := by
    have hbuf := h.buf
    rcases h'.reads i hi with hold | hnew
    · exact (h.reads i hold).imp_right fun hlt => by omega
    · exact Or.inr (by omega)

/-- One step that reads the byte at the cursor. -/
theorem Advances.step (h : printfStep call s = some s') (hbuf : s'.buf = s.buf + 1)
    (hesp : s'.esp = s.esp + words) (hreads : s'.reads = s.reads ++ [s.buf]) :
    Advances call s s' 1 words where
  run := ReflTransGen.single h
  buf := hbuf
  esp := hesp
  reads i hi := by
    rw [hreads, List.mem_append, List.mem_singleton] at hi
    exact hi.imp_right fun heq => by omega

theorem step_nul (hpos : s.pos = .outer) (hc : call.byte s.buf = 0#8) :
    printfStep call s = some { s with
      pos := .returned (BitVec.ofNat 32 s.buf), reads := s.reads ++ [s.buf] } := by
  rw [printfStep, hpos, hc]
  rfl

theorem step_plain (hpos : s.pos = .outer) (hc : call.byte s.buf = c) (hnul : c ≠ 0#8)
    (hne : c ≠ 0x25#8) :
    printfStep call s = some { s with
      buf := s.buf + 1, out := s.out ++ [c], reads := s.reads ++ [s.buf] } := by
  rw [printfStep, hpos, hc]
  simp only [if_neg hnul, if_neg hne]

theorem step_percent (hpos : s.pos = .outer) (hc : call.byte s.buf = 0x25#8) :
    printfStep call s = some { s with
      pos := .conversion false, buf := s.buf + 1, reads := s.reads ++ [s.buf] } := by
  rw [printfStep, hpos, hc]
  rfl

theorem step_hash (hpos : s.pos = .conversion alternate) (hc : call.byte s.buf = 0x23#8) :
    printfStep call s = some { s with
      pos := .conversion true, buf := s.buf + 1, reads := s.reads ++ [s.buf] } := by
  rw [printfStep, hpos, hc]
  rfl

/-- The run over `#` characters. -/
theorem advances_hashes (hashes : ℕ) (hpos : s.pos = .conversion alternate)
    (hbytes : call.byte.bytesOf s.buf hashes = List.replicate hashes 0x23#8) :
    ∃ s' alternate', Advances call s s' hashes 0 ∧ s'.pos = .conversion alternate' := by
  induction hashes generalizing s alternate with
  | zero => exact ⟨s, alternate, .refl call s, hpos⟩
  | succ hashes ih =>
    rw [Buffer.bytesOf_succ, List.replicate_succ] at hbytes
    obtain ⟨hc, hrest⟩ := List.cons.inj hbytes
    let s₁ : PrintfState := { s with
      pos := .conversion true, buf := s.buf + 1, reads := s.reads ++ [s.buf] }
    have hstep : Advances call s s₁ 1 0 := .step (step_hash hpos hc) rfl rfl rfl
    obtain ⟨s', alternate', hrun, hpos'⟩ := ih (s := s₁) rfl hrest
    refine ⟨s', alternate', ?_, hpos'⟩
    rw [Nat.add_comm]
    exact hstep.trans hrun

/-- The run from a `%` to the specifier. -/
theorem advances_percent (hashes : ℕ) (hpos : s.pos = .outer)
    (hbytes : call.byte.bytesOf s.buf (1 + hashes) = 0x25#8 :: List.replicate hashes 0x23#8) :
    ∃ s' alternate, Advances call s s' (1 + hashes) 0 ∧ s'.pos = .conversion alternate := by
  rw [Nat.add_comm, Buffer.bytesOf_succ] at hbytes
  obtain ⟨hc, hrest⟩ := List.cons.inj hbytes
  let s₁ : PrintfState := { s with
    pos := .conversion false, buf := s.buf + 1, reads := s.reads ++ [s.buf] }
  have hstep : Advances call s s₁ 1 0 := .step (step_percent hpos hc) rfl rfl rfl
  obtain ⟨s', alternate, hrun, hpos'⟩ := advances_hashes (s := s₁) hashes rfl hrest
  exact ⟨s', alternate, hstep.trans hrun, hpos'⟩

/-- Every string in memory ends, at the NUL of the format if not before. -/
theorem exists_strlen_string (hformat : Spells call.byte text) (esp : ℕ) :
    ∃ n, strlen (call.string esp) = some n := by
  -- the distance from the argument to the NUL
  let j := call.format + BitVec.ofNat 32 text.length - call.args esp
  have haddr : call.args esp + BitVec.ofNat 32 j.toNat =
      call.format + BitVec.ofNat 32 text.length := by
    rw [BitVec.ofNat_toNat, BitVec.setWidth_eq, BitVec.add_comm]
    exact BitVec.sub_add_cancel _ _
  have hnul : call.string esp j.toNat = 0#8 := by
    rw [PrintfCall.string, haddr]
    exact hformat.eq_nul
  obtain ⟨n, -, hn⟩ := (call.string esp).exists_scan_le (p := fun b => b == 0#8) j.isLt
    (beq_iff_eq.mpr hnul)
  exact ⟨n, hn⟩

/-- A specifier always has a result. -/
theorem convert_eq_some (hformat : Spells call.byte text) (esp : ℕ) (alternate : Bool) (c : Byte) :
    ∃ out, call.convert esp alternate c = some (out, if c ∈ ascii "xudcs" then 1 else 0) := by
  by_cases hx : c = 0x78#8
  · subst hx
    cases alternate with
    | false => exact (convert_hex call esp).imp' _ fun ds h => h.2
    | true => exact (convert_aligned call esp).imp' _ fun ds h => h.2
  by_cases hu : c = 0x75#8
  · subst hu
    exact (convert_unsigned call esp alternate).imp' _ fun ds h => h.2
  by_cases hd : c = 0x64#8
  · subst hd
    exact (convert_signed call esp alternate).imp' _ fun ds h => h.2
  by_cases hs : c = 0x73#8
  · subst hs
    obtain ⟨n, hn⟩ := exists_strlen_string hformat esp
    refine ⟨(call.string esp).bytesOf 0 n, ?_⟩
    simp only [PrintfCall.convert, puts, hn]
    rfl
  -- the other characters need no string
  have hletters : ascii "xudcs" = [0x78#8, 0x75#8, 0x64#8, 0x63#8, 0x73#8] := by decide
  by_cases hc : c = 0x63#8
  · subst hc
    exact ⟨_, rfl⟩
  · by_cases hp : c = 0x25#8
    · subst hp
      exact ⟨_, rfl⟩
    · refine ⟨[], ?_⟩
      simp [PrintfCall.convert, hletters, hx, hu, hd, hs, hc, hp]

/-- The run over a specifier. -/
theorem advances_specifier (hformat : Spells call.byte text) (hpos : s.pos = .conversion alternate)
    (hc : call.byte s.buf = c) (hne : c ≠ 0x23#8) :
    ∃ s', Advances call s s' 1 (if c ∈ ascii "xudcs" then 1 else 0) ∧ s'.pos = .outer := by
  obtain ⟨out, hconvert⟩ := convert_eq_some hformat s.esp alternate c
  exact ⟨_, .step (step_converted hpos hc hne hconvert) rfl rfl rfl, rfl⟩

/-- The run over a piece. -/
theorem advances_piece (hformat : Spells call.byte text) {p : Piece} (hp : p.Legal)
    (hnul : 0#8 ∉ p.text) (hpos : s.pos = .outer)
    (hbytes : call.byte.bytesOf s.buf p.text.length = p.text) :
    ∃ s', Advances call s s' p.text.length p.words ∧ s'.pos = .outer := by
  cases p with
  | plain c =>
    have hc : call.byte s.buf = c := (List.cons.inj hbytes).1
    have hnul' : c ≠ 0#8 := fun h => hnul (List.mem_singleton.mpr h.symm)
    exact ⟨_, .step (step_plain hpos hc hnul' hp) rfl rfl rfl, hpos⟩
  | conversion hashes specifier =>
    have hlen : (Piece.conversion hashes specifier).text.length = 1 + hashes + 1 := by
      simp [Piece.text]
      omega
    rw [hlen, Buffer.bytesOf_add, Piece.text, ← List.cons_append] at hbytes
    obtain ⟨hfirst, hlast⟩ := List.append_inj hbytes (by simp [Nat.add_comm])
    obtain ⟨s₁, alternate, hrun, hpos₁⟩ := advances_percent hashes hpos hfirst
    have hc : call.byte s₁.buf = specifier := by
      rw [hrun.buf]
      exact (List.cons.inj hlast).1
    obtain ⟨s₂, hstep, hpos₂⟩ := advances_specifier hformat hpos₁ hc hp
    refine ⟨s₂, ?_, hpos₂⟩
    have htrans := hrun.trans hstep
    rwa [Nat.zero_add, ← hlen] at htrans

/-- The run over pieces. -/
theorem pieces_run (hformat : Spells call.byte text) (ps : List Piece) (hps : ∀ p ∈ ps, p.Legal)
    (hnul : 0#8 ∉ ps.flatMap Piece.text) (hpos : s.pos = .outer)
    (hbytes : call.byte.bytesOf s.buf (ps.flatMap Piece.text).length = ps.flatMap Piece.text) :
    ∃ s', Advances call s s' (ps.flatMap Piece.text).length (ps.map Piece.words).sum ∧
      s'.pos = .outer := by
  induction ps generalizing s with
  | nil => exact ⟨s, .refl call s, hpos⟩
  | cons p ps ih =>
    obtain ⟨hp, hps⟩ := List.forall_mem_cons.mp hps
    rw [List.flatMap_cons, List.mem_append, not_or] at hnul
    rw [List.flatMap_cons, List.length_append, Buffer.bytesOf_add] at hbytes
    obtain ⟨hfirst, hrest⟩ := List.append_inj hbytes (Buffer.length_bytesOf _ _ _)
    obtain ⟨s₁, hrun, hpos₁⟩ := advances_piece hformat hp hnul.1 hpos hfirst
    -- the other pieces are at the new cursor
    rw [← hrun.buf] at hrest
    obtain ⟨s₂, hrun₂, hpos₂⟩ := ih hps hnul.2 hpos₁ hrest
    refine ⟨s₂, ?_, hpos₂⟩
    rw [List.flatMap_cons, List.length_append, List.map_cons, List.sum_cons]
    exact hrun.trans hrun₂

/-- `printf` returns at the NUL of a complete format. -/
theorem complete_run (hformat : Spells call.byte text) {ps : List Piece}
    (hps : ConsistsOf text ps) :
    ∃ s, PrintfRun call printfStart s ∧ s.pos = .returned (BitVec.ofNat 32 text.length) ∧
      (∀ i ∈ s.reads, i ≤ text.length) ∧ s.esp = (ps.map Piece.words).sum := by
  obtain ⟨hlegal, htext⟩ := hps
  have hnul := hformat.nul_notMem
  have hbytes := hformat.2
  rw [htext] at hnul hbytes
  obtain ⟨s, hrun, hpos⟩ := pieces_run (s := printfStart) hformat ps hlegal hnul rfl hbytes
  have hbuf : s.buf = text.length := by
    rw [hrun.buf, htext]
    exact Nat.zero_add _
  have hend : call.byte s.buf = 0#8 := by
    rw [hbuf]
    exact hformat.eq_nul
  refine ⟨_, hrun.run.tail (step_nul hpos hend), by rw [hbuf], fun i hi => ?_, ?_⟩
  · -- before the last step only bytes of the pieces have been read
    rcases List.mem_append.mp hi with hold | hlast
    · rcases hrun.reads i hold with hnone | hlt
      · cases hnone
      · rw [htext]
        exact (Nat.zero_add _ ▸ hlt).le
    · rw [List.mem_singleton.mp hlast, hbuf]
  · exact hrun.esp.trans (Nat.zero_add _)

/-- Each step reads the byte at the cursor. -/
theorem printfStep_reads (h : printfStep call s = some s') : s'.reads = s.reads ++ [s.buf] := by
  rw [printfStep] at h
  split at h
  · cases h
  · split_ifs at h <;> (cases h; rfl)
  · split_ifs at h
    · cases h
      rfl
    · obtain ⟨⟨out, words⟩, -, h⟩ := Option.bind_eq_some_iff.mp h
      cases h
      rfl

theorem PrintfRun.reads_subset (h : PrintfRun call s s') : s.reads ⊆ s'.reads := by
  induction h with
  | refl => exact List.Subset.refl _
  | tail _ hstep ih =>
    rw [printfStep_reads hstep]
    exact List.subset_append_of_subset_left _ ih

/-- A format that is cut off: the cursor passes its NUL. -/
theorem cutOff_run (hformat : Spells call.byte text) (hcut : CutOff text) :
    ∃ s, PrintfRun call printfStart s ∧ s.pos = .outer ∧ s.buf = text.length + 1 := by
  obtain ⟨ps, hashes, hlegal, htext⟩ := hcut
  have hnul := hformat.nul_notMem
  have hbytes := hformat.2
  rw [htext, List.mem_append, not_or] at hnul
  rw [htext, List.length_append, Buffer.bytesOf_add] at hbytes
  obtain ⟨hfirst, hlast⟩ := List.append_inj hbytes (Buffer.length_bytesOf _ _ _)
  obtain ⟨s₁, hrun₁, hpos₁⟩ := pieces_run (s := printfStart) hformat ps hlegal hnul.1 rfl hfirst
  have hlen : (0x25#8 :: List.replicate hashes 0x23#8).length = 1 + hashes := by
    rw [List.length_cons, List.length_replicate, Nat.add_comm]
  have hbuf₁ : s₁.buf = (ps.flatMap Piece.text).length := hrun₁.buf.trans (Nat.zero_add _)
  rw [hlen, Nat.zero_add, ← hbuf₁] at hlast
  obtain ⟨s₂, alternate, hrun₂, hpos₂⟩ := advances_percent hashes hpos₁ hlast
  have hbuf₂ : s₂.buf = text.length := by
    rw [hrun₂.buf, hbuf₁, htext, List.length_append, hlen]
  -- the NUL is taken for a specifier
  have hend : call.byte s₂.buf = 0#8 := by
    rw [hbuf₂]
    exact hformat.eq_nul
  obtain ⟨s₃, hrun₃, hpos₃⟩ := advances_specifier hformat hpos₂ hend (by decide)
  exact ⟨s₃, ((hrun₁.trans hrun₂).trans hrun₃).run, hpos₃, hrun₃.buf.trans (by rw [hbuf₂])⟩

/-- Behind its NUL the format is read in every run that returns. -/
theorem cutOff_reads (hformat : Spells call.byte text) (hcut : CutOff text)
    (hrun : PrintfRun call printfStart s) {retval : Word} (hpos : s.pos = .returned retval) :
    text.length + 1 ∈ s.reads := by
  obtain ⟨t, ht, htpos, htbuf⟩ := cutOff_run hformat hcut
  have hfinal : printfStep call s = none := by rw [printfStep, hpos]
  -- the run that returns goes through the state behind the NUL
  have hrest : PrintfRun call t s := Transition.reaches_final hfinal ht hrun
  rcases hrest.cases_head with heq | ⟨t', hstep, hrest'⟩
  · rw [heq, hpos] at htpos
    cases htpos
  · apply PrintfRun.reads_subset hrest'
    rw [printfStep_reads hstep, htbuf]
    exact List.mem_append_right _ (List.mem_singleton_self _)

/-- `printf` keeps to its format exactly if no conversion is cut off at the end. -/
theorem printsFormat_iff (hformat : Spells call.byte text) :
    PrintsFormat call text ↔ Complete text := by
  constructor
  · rintro ⟨s, hrun, hpos, hreads, -⟩
    refine (complete_or_cutOff text).1.resolve_right fun hcut => ?_
    have hlast := hreads _ (cutOff_reads hformat hcut hrun hpos)
    omega
  · rintro ⟨ps, hps⟩
    obtain ⟨s, hrun, hpos, hreads, -⟩ := complete_run hformat hps
    refine ⟨s, hrun, hpos, hreads, fun ps' hps' => ?_⟩
    -- another way to split the format describes the same run
    obtain ⟨s', hrun', hpos', -, hesp'⟩ := complete_run hformat hps'
    have hfinal : printfStep call s = none := by rw [printfStep, hpos]
    have hfinal' : printfStep call s' = none := by rw [printfStep, hpos']
    have hrest := Transition.reaches_final hfinal hrun' hrun
    rw [Transition.eq_of_final hfinal' hrest, hesp']

end

/-- The format `%##x`. -/
def hashesCall : PrintfCall where
  mem a := (cString "%##x" fun _ => 0#8) a.toNat
  format := 0#32
  args _ := 0xE#32
  convBuf _ _ := 0#8

theorem printsFormat_iff_hashes : PrintsFormat hashesCall (ascii "%##x") :=
  (printsFormat_iff ⟨by decide, by decide⟩).mpr
    ⟨[.conversion 2 0x78#8], by simp [Piece.Legal], by decide⟩

/-- The format `%`. -/
def percentCall : PrintfCall where
  mem a := (cString "%" fun _ => 0#8) a.toNat
  format := 0#32
  args _ := 0#32
  convBuf _ _ := 0#8

/-- Behind the NUL of `%` one byte more is read. -/
theorem not_printsFormat_percent : ¬ PrintsFormat percentCall (ascii "%") := by
  rintro ⟨s, hrun, hpos, hreads, -⟩
  have hcut : CutOff (ascii "%") := ⟨[], 0, List.forall_mem_nil _, by decide⟩
  exact absurd (hreads 2 (cutOff_reads ⟨by decide, by decide⟩ hcut hrun hpos)) (by decide)

end Ece391
