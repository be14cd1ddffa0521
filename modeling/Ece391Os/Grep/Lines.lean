import Ece391Os.Kernel.LibC
import Mathlib.Data.List.DropRight
import Mathlib.Data.List.Infix

/-!
# The lines of a text

What `grep` should write for a text, and for a text that is cut in two.

* `grepOutput` is what should be written. It is found line by line (`grepOutput_append_newline`).
* `grepOutput_cut_iff`: a cut changes the output if it is inside a line that matches, and there
  only.
* `FirstCut` is the first block of 1024 bytes of a file that ends inside a line, or at its end, and
  `SplitOutput` the output with a cut behind it.
-/

namespace Ece391

/-- What is written for a line. -/
def matchOutput (fname pattern line : List Byte) : List Byte :=
  if pattern <:+: line then fname ++ [0x3A#8] ++ line ++ [0x0A#8] else []

/-- What is written for the lines of a text. There is an empty one behind a newline at its end,
which contains no pattern. -/
def grepOutput (fname pattern text : List Byte) : List Byte :=
  (text.splitOn 0x0A#8).flatMap (matchOutput fname pattern)

section

variable {name pattern text line rest : List Byte}

theorem grepOutput_append_newline (name pattern text rest : List Byte) :
    grepOutput name pattern (text ++ 0x0A#8 :: rest) =
      grepOutput name pattern text ++ grepOutput name pattern rest := by
  rw [grepOutput, List.splitOn_append_cons_self, List.flatMap_append, grepOutput, grepOutput]

theorem grepOutput_line (hline : 0x0A#8 ∉ line) :
    grepOutput name pattern line = matchOutput name pattern line := by
  rw [grepOutput, List.splitOn_eq_singleton hline, List.flatMap_singleton]

theorem matchOutput_nil (hpattern : pattern ≠ []) : matchOutput name pattern [] = [] :=
  if_neg fun h => hpattern (List.infix_nil.mp h)

theorem grepOutput_nil (hpattern : pattern ≠ []) : grepOutput name pattern [] = [] := by
  rw [grepOutput_line List.not_mem_nil, matchOutput_nil hpattern]

theorem matchOutput_newline (hline : 0x0A#8 ∉ line) : matchOutput name [0x0A#8] line = [] :=
  if_neg fun h => hline (h.subset (List.mem_singleton_self _))

theorem grepOutput_newline (name text : List Byte) : grepOutput name [0x0A#8] text = [] := by
  induction hlen : text.length using Nat.strong_induction_on generalizing text with
  | _ n ih =>
    by_cases hnl : 0x0A#8 ∈ text
    · obtain ⟨line, rest, rfl, hline⟩ := List.eq_append_cons_of_mem hnl
      rw [grepOutput_append_newline, grepOutput_line hline, matchOutput_newline hline,
        List.nil_append]
      exact ih rest.length (by simp at hlen; omega) rest rfl
    · rw [grepOutput_line hnl, matchOutput_newline hnl]

theorem grepOutput_eq_nil_iff (name file : List Byte) :
    grepOutput name pattern file = [] ↔ ∀ line ∈ file.splitOn 0x0A#8, ¬ pattern <:+: line := by
  rw [grepOutput, List.flatMap_eq_nil_iff]
  refine forall₂_congr fun line _ => ?_
  rw [matchOutput]
  split_ifs with hmatch
  · simp [hmatch]
  · simp [hmatch]

/-! ## Whole lines -/

/-- The text is a number of whole lines. -/
def Ended (text : List Byte) : Prop := text = [] ∨ ∃ lines, text = lines ++ [0x0A#8]

theorem Ended.cons_line (h : Ended text) (line : List Byte) : Ended (line ++ 0x0A#8 :: text) := by
  rcases h with rfl | ⟨lines, rfl⟩
  · exact Or.inr ⟨line, rfl⟩
  · refine Or.inr ⟨line ++ 0x0A#8 :: lines, ?_⟩
    rw [List.append_assoc, List.cons_append]

theorem Ended.getElem?_last (h : Ended text) {n : ℕ} (hlen : text.length = n + 1) :
    text[n]? = some 0x0A#8 := by
  rcases h with rfl | ⟨lines, rfl⟩
  · cases hlen
  · rw [List.length_append, List.length_singleton, Nat.succ_inj] at hlen
    rw [← hlen, List.getElem?_concat_length]

theorem Ended.grepOutput_append (h : Ended text) (hpattern : pattern ≠ []) (rest : List Byte) :
    grepOutput name pattern (text ++ rest) =
      grepOutput name pattern text ++ grepOutput name pattern rest := by
  rcases h with rfl | ⟨lines, rfl⟩
  · rw [grepOutput_nil hpattern, List.nil_append, List.nil_append]
  · rw [List.append_assoc, List.singleton_append, grepOutput_append_newline,
      grepOutput_append_newline, grepOutput_nil hpattern, List.append_nil]

/-! ## Short lines -/

/-- No line is longer than 1000 bytes. -/
def LinesShort (text : List Byte) : Prop := ∀ line ∈ text.splitOn 0x0A#8, line.length ≤ 1000

theorem LinesShort.behind {whole : List Byte} (h : LinesShort (whole ++ text))
    (hended : Ended whole) : LinesShort text := by
  rcases hended with rfl | ⟨lines, rfl⟩
  · exact h
  · intro line hline
    apply h
    rw [List.append_assoc, List.singleton_append, List.splitOn_append_cons_self]
    exact List.mem_append_right _ hline

/-- The start of a line is short, whatever follows. -/
theorem LinesShort.length_le (h : LinesShort (line ++ rest)) (hline : 0x0A#8 ∉ line) :
    line.length ≤ 1000 := by
  by_cases hnl : 0x0A#8 ∈ rest
  · -- the line goes on to the first newline
    obtain ⟨more, rest, rfl, hmore⟩ := List.eq_append_cons_of_mem hnl
    have hfirst : line ++ more ∈ (line ++ (more ++ 0x0A#8 :: rest)).splitOn 0x0A#8 := by
      rw [← List.append_assoc, List.splitOn_append_cons_self]
      apply List.mem_append_left
      rw [List.splitOn_eq_singleton fun hmem => (List.mem_append.mp hmem).elim hline hmore]
      exact List.mem_singleton_self _
    have hle := h _ hfirst
    rw [List.length_append] at hle
    omega
  · -- it is the only line
    have honly : line ++ rest ∈ (line ++ rest).splitOn 0x0A#8 := by
      rw [List.splitOn_eq_singleton fun hmem => (List.mem_append.mp hmem).elim hline hnl]
      exact List.mem_singleton_self _
    have hle := h _ honly
    rw [List.length_append] at hle
    omega

/-- What is left of a line is short too. -/
theorem LinesShort.of_append (h : LinesShort (line ++ rest)) (hline : 0x0A#8 ∉ line) :
    LinesShort rest := by
  by_cases hnl : 0x0A#8 ∈ rest
  · obtain ⟨more, rest, rfl, hmore⟩ := List.eq_append_cons_of_mem hnl
    rw [LinesShort, List.splitOn_append_cons_self, List.splitOn_eq_singleton hmore]
    refine List.forall_mem_append.mpr ⟨List.forall_mem_singleton.mpr ?_, fun l hl => h l ?_⟩
    · -- the first line loses its start, and the others are as they were
      have hle := h.length_le hline
      rw [← List.append_assoc] at h
      have hfirst := h.length_le fun hmem => (List.mem_append.mp hmem).elim hline hmore
      rw [List.length_append] at hfirst
      omega
    · rw [← List.append_assoc, List.splitOn_append_cons_self]
      exact List.mem_append_right _ hl
  · rw [LinesShort, List.splitOn_eq_singleton hnl]
    refine List.forall_mem_singleton.mpr ?_
    have hle := h (line ++ rest) (by
      rw [List.splitOn_eq_singleton fun hmem => (List.mem_append.mp hmem).elim hline hnl]
      exact List.mem_singleton_self _)
    rw [List.length_append] at hle
    omega

theorem linesShort_replicate_append (h : LinesShort text) (n : ℕ) :
    LinesShort (List.replicate n 0x0A#8 ++ text) := by
  induction n with
  | zero => exact h
  | succ n ih =>
    have hsplit := List.splitOn_append_cons_self (a := 0x0A#8) []
      (List.replicate n 0x0A#8 ++ text)
    rw [LinesShort, List.replicate_succ, List.cons_append]
    rw [List.nil_append, List.splitOn_nil, List.singleton_append] at hsplit
    rw [hsplit]
    exact List.forall_mem_cons.mpr ⟨Nat.zero_le _, ih⟩

/-! ## A cut inside a line -/

/-- Two parts of a line are written as if they were the line only if it does not match. -/
theorem matchOutput_append_iff {line₁ line₂ : List Byte} (h₁ : line₁ ≠ []) (h₂ : line₂ ≠ []) :
    matchOutput name pattern (line₁ ++ line₂) =
        matchOutput name pattern line₁ ++ matchOutput name pattern line₂ ↔
      ¬ pattern <:+: line₁ ++ line₂ := by
  have hpos₁ := List.length_pos_iff.mpr h₁
  have hpos₂ := List.length_pos_iff.mpr h₂
  constructor
  · intro heq hmatch
    -- the lengths differ
    have hlen := congrArg List.length heq
    rw [matchOutput, if_pos hmatch, matchOutput, matchOutput] at hlen
    split_ifs at hlen <;>
      simp only [List.length_append, List.length_nil, List.length_singleton] at hlen <;> omega
  · intro hno
    -- no part of the line matches either
    have hno₁ : ¬ pattern <:+: line₁ := fun h => hno (h.trans (List.prefix_append _ _).isInfix)
    have hno₂ : ¬ pattern <:+: line₂ := fun h => hno (h.trans (List.suffix_append _ _).isInfix)
    rw [matchOutput, if_neg hno, matchOutput, if_neg hno₁, matchOutput, if_neg hno₂]
    rfl

/-- The byte of a text that is not a newline. -/
def inLine (b : Byte) : Bool := b != 0x0A#8

/-- The end of a text that is the start of a line, and what is in front of it. -/
theorem ended_rdropWhile (text : List Byte) :
    Ended (text.rdropWhile inLine) ∧ 0x0A#8 ∉ text.rtakeWhile inLine := by
  constructor
  · rcases List.eq_nil_or_concat (text.rdropWhile inLine) with hnil | ⟨lines, b, hlines⟩
    · exact Or.inl hnil
    · -- the byte that stops the run is a newline
      have hne : text.rdropWhile inLine ≠ [] := by
        rw [hlines]
        simp
      have hlast := List.rdropWhile_last_not inLine text hne
      have hb : b = 0x0A#8 := by simpa [hlines, inLine] using hlast
      exact Or.inr ⟨lines, by rw [hlines, hb, List.concat_eq_append]⟩
  · intro hmem
    exact absurd (List.mem_rtakeWhile_imp hmem) (by decide)

/-- The rest of a line, and what is behind its newline. -/
theorem grepOutput_takeWhile (hpattern : pattern ≠ []) {line : List Byte} (hline : 0x0A#8 ∉ line)
    (text : List Byte) :
    grepOutput name pattern (line ++ text) =
      matchOutput name pattern (line ++ text.takeWhile inLine) ++
        grepOutput name pattern ((text.dropWhile inLine).drop 1) := by
  have hfirst : 0x0A#8 ∉ line ++ text.takeWhile inLine := by
    intro hmem
    refine (List.mem_append.mp hmem).elim hline fun h => ?_
    exact absurd (List.mem_takeWhile_imp h) (by decide)
  have htext : line ++ text = line ++ text.takeWhile inLine ++ text.dropWhile inLine := by
    rw [List.append_assoc, List.takeWhile_append_dropWhile]
  rw [htext]
  rcases hrest : text.dropWhile inLine with - | ⟨b, rest⟩
  · -- nothing is behind the line
    rw [List.append_nil, List.drop_nil, grepOutput_nil hpattern, List.append_nil,
      grepOutput_line hfirst]
  · have hb : b = 0x0A#8 := by
      have hhead := List.head_dropWhile_not inLine (l := text) (by rw [hrest]; simp)
      simpa [hrest, inLine] using hhead
    rw [hb, grepOutput_append_newline, grepOutput_line hfirst]
    rfl

/-- A text that is cut in two is written as a whole unless the cut is inside a line that matches. -/
theorem grepOutput_cut_iff (name : List Byte) (hpattern : pattern ≠ []) {text₁ : List Byte}
    (hne : text₁.rtakeWhile inLine ≠ []) (text₂ : List Byte) :
    grepOutput name pattern text₁ ++ grepOutput name pattern text₂ =
        grepOutput name pattern (text₁ ++ text₂) ↔
      (text₂.takeWhile inLine ≠ [] →
        ¬ pattern <:+: text₁.rtakeWhile inLine ++ text₂.takeWhile inLine) := by
  obtain ⟨hended, hline⟩ := ended_rdropWhile text₁
  have htext₁ : text₁.rdropWhile inLine ++ text₁.rtakeWhile inLine = text₁ :=
    List.rdropWhile_append_rtakeWhile
  have hnil : 0x0A#8 ∉ ([] : List Byte) := List.not_mem_nil
  have h₁ : grepOutput name pattern text₁ = grepOutput name pattern (text₁.rdropWhile inLine) ++
      matchOutput name pattern (text₁.rtakeWhile inLine) := by
    rw [← grepOutput_line hline, ← hended.grepOutput_append hpattern, htext₁]
  have h₂ : grepOutput name pattern text₂ = matchOutput name pattern (text₂.takeWhile inLine) ++
      grepOutput name pattern ((text₂.dropWhile inLine).drop 1) :=
    grepOutput_takeWhile hpattern hnil text₂
  have hboth : grepOutput name pattern (text₁ ++ text₂) =
      grepOutput name pattern (text₁.rdropWhile inLine) ++
        (matchOutput name pattern (text₁.rtakeWhile inLine ++ text₂.takeWhile inLine) ++
          grepOutput name pattern ((text₂.dropWhile inLine).drop 1)) := by
    rw [← grepOutput_takeWhile hpattern hline, ← hended.grepOutput_append hpattern,
      ← List.append_assoc, htext₁]
  -- the lines before and behind the cut are the same on both sides
  rw [h₁, h₂, hboth, List.append_assoc, ← List.append_assoc (matchOutput name pattern _),
    List.append_cancel_left_eq, List.append_cancel_right_eq]
  by_cases hempty : text₂.takeWhile inLine = []
  · -- the cut is at the end of the line
    rw [hempty, List.append_nil, matchOutput_nil hpattern, List.append_nil]
    exact iff_of_true rfl fun h => absurd rfl h
  · rw [eq_comm, matchOutput_append_iff hne hempty]
    exact ⟨fun h _ => h, fun h => h hempty⟩

/-! ## The first cut at the end of a block -/

/-- `block` is the first block of 1024 bytes of the file that does not end in a newline. -/
structure FirstCut (file : List Byte) (block : ℕ) : Prop where
  before : ∀ i < block, file[1024 * i + 1023]? = some 0x0A#8
  cut : ∃ b, file[1024 * block + 1023]? = some b ∧ b ≠ 0x0A#8

theorem FirstCut.unique {file : List Byte} {block block' : ℕ} (h : FirstCut file block)
    (h' : FirstCut file block') : block = block' := by
  obtain ⟨b, hb, hne⟩ := h.cut
  obtain ⟨b', hb', hne'⟩ := h'.cut
  rcases lt_trichotomy block block' with hlt | heq | hlt
  · rw [h'.before block hlt, Option.some.injEq] at hb
    exact absurd hb.symm hne
  · exact heq
  · rw [h.before block' hlt, Option.some.injEq] at hb'
    exact absurd hb'.symm hne'

/-- The last byte of a first cut is the start of a line. -/
theorem FirstCut.rtakeWhile_ne_nil {file : List Byte} {block : ℕ} (h : FirstCut file block) :
    (file.take (1024 * (block + 1))).rtakeWhile inLine ≠ [] := by
  obtain ⟨b, hb, hne⟩ := h.cut
  have hidx : 1024 * (block + 1) = 1024 * block + 1023 + 1 := by omega
  have hlast : inLine b = true := bne_iff_ne.mpr hne
  rw [hidx, List.take_add_one, hb, Option.toList_some, List.rtakeWhile_concat_pos _ _ _ hlast]
  exact List.concat_ne_nil _ _

theorem not_firstCut_of_short {file : List Byte} (hlen : file.length < 1024) (block : ℕ) :
    ¬ FirstCut file block := by
  rintro ⟨-, b, hb, -⟩
  rw [List.getElem?_eq_none (by omega)] at hb
  cases hb

/-- The first block ends in a newline. -/
theorem firstCut_succ_iff {file : List Byte} (hnewline : file[1023]? = some 0x0A#8) (block : ℕ) :
    FirstCut file (block + 1) ↔ FirstCut (file.drop 1024) block := by
  have hget : ∀ i, (file.drop 1024)[1024 * i + 1023]? = file[1024 * (i + 1) + 1023]? := by
    intro i
    have hidx : 1024 + (1024 * i + 1023) = 1024 * (i + 1) + 1023 := by omega
    rw [List.getElem?_drop, hidx]
  constructor
  · rintro ⟨hbefore, hcut⟩
    refine ⟨fun i hi => ?_, ?_⟩
    · rw [hget]
      exact hbefore (i + 1) (by omega)
    · rwa [hget]
  · rintro ⟨hbefore, hcut⟩
    rw [hget] at hcut
    refine ⟨fun i hi => ?_, hcut⟩
    cases i with
    | zero => rwa [Nat.mul_zero, Nat.zero_add]
    | succ i =>
      rw [← hget]
      exact hbefore i (by omega)

/-- The first block ends inside a line. -/
theorem firstCut_zero {file whole tail : List Byte} (hsplit : file.take 1024 = whole ++ tail)
    (hfull : (file.take 1024).length = 1024) (htail : 0x0A#8 ∉ tail) (hne : tail ≠ []) :
    FirstCut file 0 := by
  have hpos := List.length_pos_iff.mpr hne
  have hlen : whole.length + tail.length = 1024 := by rw [← List.length_append, ← hsplit, hfull]
  have hlt : 1023 - whole.length < tail.length := by omega
  refine ⟨fun i hi => absurd hi (Nat.not_lt_zero i), tail[1023 - whole.length], ?_, ?_⟩
  · rw [Nat.mul_zero, Nat.zero_add, ← List.getElem?_take_of_lt (by decide : 1023 < 1024), hsplit,
      List.getElem?_append_right (by omega), List.getElem?_eq_getElem hlt]
  · exact fun heq => htail (heq ▸ List.getElem_mem hlt)

theorem not_firstCut_zero {file : List Byte} (hnewline : file[1023]? = some 0x0A#8) :
    ¬ FirstCut file 0 := by
  rintro ⟨-, b, hb, hne⟩
  rw [Nat.mul_zero, Nat.zero_add, hnewline, Option.some.injEq] at hb
  exact hne hb.symm

/-- What is written if the last byte of the buffer is a newline: the file as it is, or the file
with a line end behind the first cut. -/
structure SplitOutput (name pattern file out : List Byte) : Prop where
  uncut : (∀ block, ¬ FirstCut file block) → out = grepOutput name pattern file
  cut : ∀ block, FirstCut file block →
    out = grepOutput name pattern (file.take (1024 * (block + 1))) ++
      grepOutput name pattern (file.drop (1024 * (block + 1)))

/-- A block that ends in a newline, in front of a file. -/
theorem SplitOutput.block {file out : List Byte} (hpattern : pattern ≠ [])
    (hended : Ended (file.take 1024)) (hnewline : file[1023]? = some 0x0A#8)
    (h : SplitOutput name pattern (file.drop 1024) out) :
    SplitOutput name pattern file (grepOutput name pattern (file.take 1024) ++ out) := by
  constructor
  · intro hno
    rw [h.uncut fun block hcut => hno _ ((firstCut_succ_iff hnewline block).mpr hcut),
      ← hended.grepOutput_append hpattern, List.take_append_drop]
  · intro block hcut
    cases block with
    | zero => exact absurd hcut (not_firstCut_zero hnewline)
    | succ block =>
      have hout := h.cut block ((firstCut_succ_iff hnewline block).mp hcut)
      have hidx : 1024 * (block + 1 + 1) = 1024 + 1024 * (block + 1) := by omega
      rw [hout, hidx, List.take_add, List.drop_drop, hended.grepOutput_append hpattern,
        List.append_assoc]

end

end Ece391
