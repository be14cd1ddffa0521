import Ece391Os.Grep.Lines
import Ece391Os.Grep.Support

/-!
# `do_one_file` of `grep`

The buffer `data` is filled from the file, and its lines are searched for the pattern. An unfinished
line at its end is moved to the front, and the rest of the buffer is filled again.

* `scanLines` is the loop over the lines of the buffer, `fillLoop` the loop over the fills.
* `scanLines_spec`: the lines that are searched and the tail that is kept, by the byte behind the
  part of the buffer that is in use. This byte decides whether the last line is unfinished.
* `grepExact_iff`: the output is right but for a line that is split (`SplitsLine`), which a newline
  in the last byte of the buffer on the stack can do once, and for a pattern whose first character
  is negative, which is never found.
-/

namespace Ece391

/-- The system calls on the file, over the states of its descriptor. `none` is the result -1. -/
structure FileCalls (σ : Type) where
  openFile : Option σ
  read : σ → ℕ → Option (List Byte × σ)
  close : σ → Bool

/-- `line_end`: from an index on, the first newline, or `last`. -/
def findLineEnd (data : Buffer) (last lineEnd : ℕ) : ℕ :=
  if lineEnd < last ∧ data lineEnd ≠ 0x0A#8 then findLineEnd data last (lineEnd + 1) else lineEnd
termination_by last - lineEnd

theorem le_findLineEnd (data : Buffer) (last lineEnd : ℕ) :
    lineEnd ≤ findLineEnd data last lineEnd := by
  induction lineEnd using findLineEnd.induct data last with
  | case1 lineEnd hgo ih =>
    rw [findLineEnd, if_pos hgo]
    exact (Nat.le_succ _).trans ih
  | case2 lineEnd hstop => rw [findLineEnd, if_neg hstop]

/-- The search of the line from `lineStart` to `lineEnd`, from index `check` on: what is written. -/
def searchLine (s fname : Buffer) (sLen : ℕ) (data : Buffer) (lineStart lineEnd check : ℕ) :
    Option (List Byte) :=
  if check < lineEnd then
    -- a character of `s` is signed, one of `data` is not
    if (s 0).toInt = (data check).toNat ∧
        ece391Strncmp (fun j => data (check + j)) s sLen = 0 then do
      let name ← ece391Fdputs fname
      let line ← ece391Fdputs fun j => data (lineStart + j)
      return name ++ [0x3A#8] ++ line ++ [0x0A#8]
    else searchLine s fname sLen data lineStart lineEnd (check + 1)
  else some []
termination_by lineEnd - check

/-- The loop over the lines of the buffer, after a read of `cnt` bytes. The results are the buffer,
`last`, and what has been written. -/
def scanLines (s fname : Buffer) (sLen cnt last : ℕ) (data : Buffer) (lineStart : ℕ) :
    Option (Buffer × ℕ × List Byte) :=
  let lineEnd := findLineEnd data last lineStart
  let cut := Function.update data lineEnd 0#8
  if data lineEnd ≠ 0x0A#8 ∧ cnt ≠ 0 ∧ lineStart ≠ 0 then do
    -- the unfinished line goes to the front
    let moved ← ece391Strcpy cut 0 lineStart
    return (moved, last - lineStart, [])
  else do
    let out ← searchLine s fname sLen cut lineStart lineEnd lineStart
    if last ≤ lineEnd + 1 then
      return (cut, 0, out)
    else do
      let (data', last', rest) ← scanLines s fname sLen cnt last cut (lineEnd + 1)
      return (data', last', out ++ rest)
termination_by last - lineStart
decreasing_by
  have hle := le_findLineEnd data last lineStart
  omega

/-- The loop over the fills: the result of `do_one_file`, and what has been written. There is none
if the rounds do not suffice. -/
def fillLoop {σ : Type} (calls : FileCalls σ) (s fname : Buffer) (sLen : ℕ) :
    ℕ → σ → Buffer → ℕ → Option (ℤ × List Byte)
  | 0, _, _, _ => none
  | rounds + 1, fd, data, last =>
    match calls.read fd (1024 - last) with
    | none => some (-1, ascii "file read failed\n")
    | some (bytes, fd) => do
      let cnt := bytes.length
      let data := data.splice last (Buffer.ofList bytes fun _ => 0#8) cnt
      let (data, last, out) ← scanLines s fname sLen cnt (last + cnt) data 0
      if cnt = 0 then
        if calls.close fd then return (0, out)
        else return (-1, out ++ ascii "file close failed\n")
      else do
        let (ret, rest) ← fillLoop calls s fname sLen rounds fd data last
        return (ret, out ++ rest)

/-- `do_one_file`, with what is on the stack where `data` is. -/
def doOneFile {σ : Type} (calls : FileCalls σ) (s fname data : Buffer) (rounds : ℕ) :
    Option (ℤ × List Byte) := do
  let sLen ← ece391Strlen s
  match calls.openFile with
  | none => return (-1, ascii "file open failed\n")
  | some fd => fillLoop calls s fname sLen rounds fd data 0

/-- A file that can be opened and closed, and whose reads return as many bytes as are asked for
until its end. -/
def plainFile (file : List Byte) : FileCalls (List Byte) where
  openFile := some file
  read rest n := some (rest.take n, rest.drop n)
  close _ := true

section

variable {s fname data : Buffer} {name pattern text line rest : List Byte} {sLen last cnt : ℕ}

/-! ## One line -/

/-- The end of a line that has a newline behind it, or is the last one. -/
theorem findLineEnd_eq {lineStart n : ℕ} (hle : lineStart + n ≤ last)
    (hline : ∀ j < n, data (lineStart + j) ≠ 0x0A#8)
    (hend : lineStart + n = last ∨ data (lineStart + n) = 0x0A#8) :
    findLineEnd data last lineStart = lineStart + n := by
  induction n generalizing lineStart with
  | zero =>
    rw [findLineEnd, if_neg, Nat.add_zero]
    rintro ⟨hlt, hne⟩
    exact hend.elim (fun h => by omega) hne
  | succ n ih =>
    have hfirst : lineStart < last ∧ data lineStart ≠ 0x0A#8 := ⟨by omega, hline 0 (by omega)⟩
    have hidx : lineStart + (n + 1) = lineStart + 1 + n := by omega
    rw [findLineEnd, if_pos hfirst, hidx]
    refine ih (by omega) (fun j hj => ?_) ?_
    · have hnext := hline (j + 1) (by omega)
      rwa [Nat.add_comm j 1, ← Nat.add_assoc] at hnext
    · rwa [← hidx]

/-- The search writes the lines that contain the pattern. -/
def SearchesFor (s fname : Buffer) (sLen : ℕ) (name pattern : List Byte) : Prop :=
  ∀ (data : Buffer) (lineStart : ℕ) (line : List Byte), 0x0A#8 ∉ line →
    Spells (fun j => data (lineStart + j)) line →
      searchLine s fname sLen data lineStart (lineStart + line.length) lineStart =
        some (matchOutput name pattern line)

/-- The first character of the pattern is negative as a `char`. -/
def StartsNegative (pattern : List Byte) : Prop := ∃ b, pattern.head? = some b ∧ b.toInt < 0

theorem startsNegative_iff (hs : Spells s pattern) (hpattern : pattern ≠ []) :
    StartsNegative pattern ↔ (s 0).toInt < 0 := by
  have hfirst := hs.eq_getElem (List.length_pos_iff.mpr hpattern)
  rw [StartsNegative, List.head?_eq_some_head hpattern, List.head_eq_getElem, hfirst]
  simp only [Option.some.injEq, exists_eq_left']

/-- The search from the `i`-th character of a line on. -/
theorem searchLine_from (hs : Spells s pattern) (hpattern : pattern ≠ [])
    (hchar : ¬ StartsNegative pattern) (hname : Spells fname name) {lineStart : ℕ}
    (hline : Spells (fun j => data (lineStart + j)) line) {i : ℕ} (hi : i ≤ line.length) :
    searchLine s fname pattern.length data lineStart (lineStart + line.length) (lineStart + i) =
      some (if pattern <:+: line.drop i then name ++ [0x3A#8] ++ line ++ [0x0A#8] else []) := by
  have hmsb : (s 0).msb = false := by
    rw [startsNegative_iff hs hpattern] at hchar
    rwa [← Bool.not_eq_true, BitVec.msb_eq_toInt, decide_eq_true_eq]
  obtain ⟨k, hk⟩ := Nat.exists_eq_add_of_le hi
  induction k generalizing i with
  | zero =>
    -- the end of the line
    rw [searchLine, if_neg (by omega), List.drop_of_length_le (by omega), if_neg]
    exact fun h => hpattern (List.infix_nil.mp h)
  | succ k ih =>
    have hlt : i < line.length := by omega
    have hrest : Spells (fun j => data (lineStart + i + j)) (line.drop i) := by
      have hdrop := hline.drop hi
      simpa only [← Nat.add_assoc] using hdrop
    -- both tests together are the one for a prefix
    have htests : (s 0).toInt = (data (lineStart + i)).toNat ∧
        ece391Strncmp (fun j => data (lineStart + i + j)) s pattern.length = 0 ↔
          pattern <+: line.drop i := by
      rw [ece391Strncmp_eq_zero_iff hs, hrest.bytesOf_eq_iff hs.nul_notMem]
      refine and_iff_right_of_imp fun hbegins => ?_
      have hpos : 0 < pattern.length := List.length_pos_iff.mpr hpattern
      have hbytes := (hrest.bytesOf_eq_iff hs.nul_notMem).mpr hbegins
      have hfirst : data (lineStart + i) = s 0 :=
        ((Buffer.bytesOf_eq_iff _).mp hbytes 0 hpos).trans (hs.eq_getElem hpos).symm
      rw [hfirst]
      exact BitVec.toInt_eq_toNat_of_msb hmsb
    rw [searchLine, if_pos (by omega)]
    by_cases hfound : pattern <+: line.drop i
    · -- the whole line is written, from its start on
      rw [if_pos (htests.mpr hfound), if_pos hfound.isInfix, hname.fdputs_eq, hline.fdputs_eq]
      rfl
    · rw [if_neg (fun h => hfound (htests.mp h)), Nat.add_assoc, ih (by omega) (by omega)]
      have hnext : pattern <:+: line.drop i ↔ pattern <:+: line.drop (i + 1) := by
        rw [List.drop_eq_getElem_cons hlt] at hfound ⊢
        rw [List.infix_cons_iff]
        exact or_iff_right hfound
      simp only [hnext]

/-- A pattern that starts with an ASCII character is searched for. -/
theorem searchesFor_pattern (hs : Spells s pattern) (hpattern : pattern ≠ [])
    (hchar : ¬ StartsNegative pattern) (hname : Spells fname name) :
    SearchesFor s fname pattern.length name pattern :=
  fun _ _ _ _ hline => searchLine_from hs hpattern hchar hname hline (Nat.zero_le _)

/-- A negative character is none of the line: the search is as good as one for a newline. -/
theorem searchesFor_newline (hs : Spells s pattern) (hpattern : pattern ≠ [])
    (hchar : StartsNegative pattern) (name : List Byte) :
    SearchesFor s fname pattern.length name [0x0A#8] := by
  intro data lineStart line hnl hline
  rw [matchOutput_newline hnl]
  have hall : ∀ k check, check + k = lineStart + line.length →
      searchLine s fname pattern.length data lineStart (lineStart + line.length) check =
        some [] := by
    intro k
    induction k with
    | zero =>
      intro check hcheck
      rw [searchLine, if_neg (by omega)]
    | succ k ih =>
      intro check hcheck
      -- the first test fails, so the second is not made
      have htest : (s 0).toInt ≠ (data check).toNat := by
        have hneg := (startsNegative_iff hs hpattern).mp hchar
        omega
      rw [searchLine, if_pos (by omega), if_neg fun h => htest h.1]
      exact ih (check + 1) (by omega)
  exact hall line.length lineStart rfl

/-! ## The lines of the buffer -/

/-- What the loop over the lines does with whole lines and a tail behind them. `data` and
`lineStart` are those before it. -/
inductive ScanResult (name pattern : List Byte) (cnt lineStart last : ℕ) (data : Buffer)
    (whole tail : List Byte) : Option (Buffer × ℕ × List Byte) → Prop
  /-- The tail is an unfinished line, and at the front now. -/
  | kept (data' : Buffer) (htail : tail ≠ []) (hbyte : data last ≠ 0x0A#8) (hcnt : cnt ≠ 0)
      (hbytes : data'.bytesOf 0 tail.length = tail)
      (hlast : data' 1024 = if last = 1024 then 0#8 else data 1024) :
      ScanResult name pattern cnt lineStart last data whole tail
        (some (data', tail.length, grepOutput name pattern whole))
  /-- The tail has been searched like a line. -/
  | done (data' : Buffer)
      (htail : tail = [] ∨ data last = 0x0A#8 ∨ cnt = 0 ∨ lineStart = 0 ∧ whole = [])
      (hlast : data' 1024 = if last = 1024 ∧ tail ≠ [] then 0#8 else data 1024) :
      ScanResult name pattern cnt lineStart last data whole tail
        (some (data', 0, grepOutput name pattern (whole ++ tail)))

/-- A line in the buffer, with a NUL behind it. -/
theorem spells_cut {lineStart : ℕ} (hnul : 0#8 ∉ line) (hlen : line.length ≤ 1024)
    (hbytes : data.bytesOf lineStart line.length = line) :
    Spells (fun j => Function.update data (lineStart + line.length) 0#8 (lineStart + j)) line := by
  refine spells_of_bytes hnul (by omega) (fun j hj => ?_) (Function.update_self _ _ _)
  rw [Function.update_of_ne (by omega)]
  exact data.bytesOf_eq_iff.mp hbytes j hj

/-- A buffer that ends without a newline: the tail is kept or searched. -/
theorem scanLines_tail (hsearch : SearchesFor s fname sLen name pattern) (hpattern : pattern ≠ [])
    {lineStart : ℕ} (htext : data.bytesOf lineStart text.length = text) (hnul : 0#8 ∉ text)
    (hlast : lineStart + text.length = last) (hsize : last ≤ 1024) (hnl : 0x0A#8 ∉ text)
    (hne : lineStart ≠ 0 → text ≠ []) :
    ScanResult name pattern cnt lineStart last data [] text
      (scanLines s fname sLen cnt last data lineStart) := by
  have hend : findLineEnd data last lineStart = lineStart + text.length := by
    refine findLineEnd_eq hlast.le (fun j hj heq => hnl ?_) (Or.inl hlast)
    rw [← heq, data.bytesOf_eq_iff.mp htext j hj]
    exact List.getElem_mem hj
  have hline := spells_cut hnul (by omega) htext
  rw [scanLines, hend]
  simp only
  by_cases hkeep : data (lineStart + text.length) ≠ 0x0A#8 ∧ cnt ≠ 0 ∧ lineStart ≠ 0
  · -- the line is unfinished, and moved to the front
    rw [if_pos hkeep, ece391Strcpy_eq hline]
    obtain ⟨hbyte, hcnt, hstart⟩ := hkeep
    have hsub : last - lineStart = text.length := by omega
    simp only [Option.bind_eq_bind, Option.bind_some, Option.pure_def, hsub]
    let cut : Buffer := Function.update data (lineStart + text.length) 0#8
    have hkept : ScanResult name pattern cnt lineStart last data [] text
        (some (cut.overwrite (fun j => cut (lineStart + j)) (text.length + 1), text.length,
          grepOutput name pattern [])) := by
      refine .kept _ (hne hstart) (hlast ▸ hbyte) hcnt ?_ ?_
      · rw [Buffer.bytesOf_overwrite _ _ _ _ (Nat.le_succ _)]
        exact hline.2
      · -- the copy ends before the last byte of the buffer
        rw [Buffer.overwrite_of_le _ _ _ (by omega)]
        refine (Function.update_apply _ _ _ _).trans ?_
        exact if_congr (by omega) rfl rfl
    rwa [grepOutput_nil hpattern] at hkept
  · -- the line is searched, finished or not
    rw [if_neg hkeep, hsearch _ _ _ hnl hline]
    simp only [Option.bind_eq_bind, Option.bind_some, Option.pure_def]
    rw [if_pos (by omega), ← grepOutput_line hnl]
    refine .done _ ?_ ?_
    · rw [hlast] at hkeep
      by_contra hno
      obtain ⟨-, hbyte, hcnt, hstart⟩ := by simpa only [not_or, and_true] using hno
      exact hkeep ⟨hbyte, hcnt, hstart⟩
    · -- only an empty buffer has nothing behind its last newline
      have hempty : text = [] → last = 0 := by
        intro h
        have hstart : lineStart = 0 := by
          by_contra hstart
          exact hne hstart h
        rw [← hlast, h, hstart]
        rfl
      rw [Function.update_apply]
      refine if_congr ?_ rfl rfl
      constructor
      · exact fun h => ⟨by omega, fun h' => by have := hempty h'; omega⟩
      · exact fun h => by omega

/-- One line more in front of the whole lines. -/
theorem ScanResult.cons {lineStart : ℕ} {whole tail : List Byte} (hline : 0x0A#8 ∉ line)
    (hlast : lineStart + line.length < last) (hsize : last ≤ 1024)
    {result : Option (Buffer × ℕ × List Byte)}
    (h : ScanResult name pattern cnt (lineStart + line.length + 1) last
      (Function.update data (lineStart + line.length) 0#8) whole tail result) :
    ScanResult name pattern cnt lineStart last data (line ++ 0x0A#8 :: whole) tail
      (result.map fun r => (r.1, r.2.1, matchOutput name pattern line ++ r.2.2)) := by
  have hsame : Function.update data (lineStart + line.length) 0#8 last = data last :=
    Function.update_of_ne (by omega) _ _
  have hsame' : Function.update data (lineStart + line.length) 0#8 1024 = data 1024 :=
    Function.update_of_ne (by omega) _ _
  have hout : ∀ text, matchOutput name pattern line ++ grepOutput name pattern text =
      grepOutput name pattern (line ++ 0x0A#8 :: text) := fun text => by
    rw [grepOutput_append_newline, grepOutput_line hline]
  cases h with
  | kept data' htail hbyte hcnt hbytes hlast' =>
    rw [hsame] at hbyte
    rw [hsame'] at hlast'
    rw [Option.map_some, hout]
    exact .kept data' htail hbyte hcnt hbytes hlast'
  | done data' htail hlast' =>
    rw [hsame] at htail
    rw [hsame'] at hlast'
    rw [Option.map_some, hout, ← List.cons_append, ← List.append_assoc]
    refine .done data' ?_ hlast'
    exact htail.imp_right fun h => h.imp_right fun h => h.imp_right fun h => absurd h.1 (by omega)

/-- The loop over the lines of a buffer that holds `text` from `lineStart` on. -/
theorem scanLines_spec (cnt : ℕ) (hsearch : SearchesFor s fname sLen name pattern)
    (hpattern : pattern ≠ [])
    {lineStart : ℕ} (htext : data.bytesOf lineStart text.length = text) (hnul : 0#8 ∉ text)
    (hlast : lineStart + text.length = last) (hsize : last ≤ 1024)
    (hne : lineStart ≠ 0 → text ≠ []) :
    ∃ whole tail, text = whole ++ tail ∧ Ended whole ∧ 0x0A#8 ∉ tail ∧
      ScanResult name pattern cnt lineStart last data whole tail
        (scanLines s fname sLen cnt last data lineStart) := by
  induction hlen : text.length using Nat.strong_induction_on generalizing text data lineStart with
  | _ n ih =>
    by_cases hnl : 0x0A#8 ∈ text
    · -- a line with its newline
      obtain ⟨line, rest, rfl, hline⟩ := List.eq_append_cons_of_mem hnl
      have hlen' : (line ++ 0x0A#8 :: rest).length = line.length + (rest.length + 1) := by simp
      rw [hlen', Buffer.bytesOf_add, Buffer.bytesOf_succ] at htext
      obtain ⟨hfirst, hbehind⟩ := List.append_inj htext (Buffer.length_bytesOf _ _ _)
      obtain ⟨hnewline, hrest⟩ := List.cons.inj hbehind
      have hend : findLineEnd data last lineStart = lineStart + line.length := by
        refine findLineEnd_eq (by omega) (fun j hj heq => hline ?_) (Or.inr hnewline)
        rw [← heq, data.bytesOf_eq_iff.mp hfirst j hj]
        exact List.getElem_mem hj
      have hspells := spells_cut (fun h => hnul (List.mem_append_left _ h)) (by omega) hfirst
      rw [scanLines, hend]
      simp only
      rw [if_neg (fun h => h.1 hnewline), hsearch _ _ _ hline hspells]
      simp only [Option.bind_eq_bind, Option.bind_some, Option.pure_def]
      by_cases hempty : rest = []
      · -- it is the last one
        subst hempty
        refine ⟨line ++ [0x0A#8], [], by simp, Or.inr ⟨line, rfl⟩, List.not_mem_nil, ?_⟩
        have hout : matchOutput name pattern line =
            grepOutput name pattern (line ++ [0x0A#8] ++ []) := by
          rw [List.append_nil, grepOutput_append_newline, grepOutput_nil hpattern,
            List.append_nil, grepOutput_line hline]
        rw [if_pos (by rw [List.length_nil] at hlen'; omega), hout]
        refine .done _ (Or.inl rfl) ?_
        rw [if_neg (fun h => h.2 rfl), Function.update_of_ne (by omega)]
      · -- the others are in the buffer as before, behind the NUL of this one
        have hmore : ¬ last ≤ lineStart + line.length + 1 := by
          have hpos := List.length_pos_iff.mpr hempty
          omega
        rw [if_neg hmore]
        have hrest' : Buffer.bytesOf (Function.update data (lineStart + line.length) 0#8)
            (lineStart + line.length + 1) rest.length = rest := by
          refine (Buffer.bytesOf_congr _ _ _ fun j _ => ?_).trans hrest
          exact Function.update_of_ne (by omega) _ _
        obtain ⟨whole, tail, hsplit, hended, htail, hresult⟩ := ih rest.length (by omega)
          hrest' (fun h => hnul (List.mem_append_right _ (List.mem_cons_of_mem _ h))) (by omega)
          (fun _ => hempty) rfl
        refine ⟨line ++ 0x0A#8 :: whole, tail, ?_, ?_, htail, ?_⟩
        · rw [hsplit, List.append_assoc, List.cons_append]
        · exact hended.cons_line line
        · have hcons := hresult.cons hline (by omega) hsize
          rwa [Option.map_eq_bind] at hcons
    · exact ⟨[], text, rfl, Or.inl rfl, hnl,
        scanLines_tail hsearch hpattern htext hnul hlast hsize hnl hne⟩

/-! ## The fills -/

/-- The bytes of a read are behind those that are there already. -/
theorem bytesOf_splice {unfinished : List Byte} (bytes : List Byte)
    (hdata : data.bytesOf 0 unfinished.length = unfinished) :
    (data.splice unfinished.length (Buffer.ofList bytes fun _ => 0#8) bytes.length).bytesOf 0
      (unfinished ++ bytes).length = unfinished ++ bytes := by
  rw [List.length_append, Buffer.bytesOf_add, Nat.zero_add]
  congr 1
  · refine (Buffer.bytesOf_congr _ _ _ fun j hj => ?_).trans hdata
    exact if_neg (by omega)
  · refine (Buffer.bytesOf_eq_iff _).mpr fun j hj => ?_
    rw [Buffer.splice_of_lt _ _ _ _ hj, Buffer.ofList_of_lt _ _ hj]

/-- What the loops have in common from fill to fill: `unfinished` is the start of a line, at the
front of the buffer, and `rest` is what has not been read. -/
structure Filling (data : Buffer) (unfinished rest : List Byte) : Prop where
  bytes : data.bytesOf 0 unfinished.length = unfinished
  no_newline : 0x0A#8 ∉ unfinished
  no_nul : 0#8 ∉ unfinished ++ rest
  short : LinesShort (unfinished ++ rest)

/-- One fill, and the loop over the lines behind it. -/
theorem Filling.round {unfinished : List Byte} (hsearch : SearchesFor s fname sLen name pattern)
    (hpattern : pattern ≠ []) (h : Filling data unfinished rest) (file : List Byte)
    (rounds : ℕ) :
    let bytes := rest.take (1024 - unfinished.length)
    let rest' := rest.drop (1024 - unfinished.length)
    ∃ whole tail data₁ result, unfinished ++ bytes = whole ++ tail ∧ Ended whole ∧
      0x0A#8 ∉ tail ∧ data₁ 1024 = data 1024 ∧
      ScanResult name pattern bytes.length 0 (unfinished ++ bytes).length data₁ whole tail result ∧
      fillLoop (plainFile file) s fname sLen (rounds + 1) rest data unfinished.length =
        result.bind fun r =>
          if bytes.length = 0 then some (0, r.2.2)
          else (fillLoop (plainFile file) s fname sLen rounds rest' r.1 r.2.1).map
            fun o => (o.1, r.2.2 ++ o.2) := by
  intro bytes rest'
  have hlen : unfinished.length ≤ 1000 := h.short.length_le h.no_newline
  have hbytes : bytes.length ≤ 1024 - unfinished.length := List.length_take_le _ _
  have hnul : 0#8 ∉ unfinished ++ bytes := by
    intro hmem
    refine h.no_nul (List.mem_append.mpr ?_)
    exact (List.mem_append.mp hmem).imp_right List.mem_of_mem_take
  obtain ⟨whole, tail, hsplit, hended, htail, hresult⟩ := scanLines_spec bytes.length hsearch
    hpattern (bytesOf_splice bytes h.bytes) hnul
    (Nat.zero_add _) (by rw [List.length_append]; omega) (fun h => absurd rfl h)
  refine ⟨whole, tail, _, _, hsplit, hended, htail, ?_, hresult, ?_⟩
  · exact if_neg (by omega)
  · rw [fillLoop, List.length_append]
    simp only [plainFile, Option.bind_eq_bind, Option.pure_def, if_true, Option.map_eq_bind]
    rfl

/-- Nothing is left to be read: the unfinished line is the last one. -/
theorem Filling.end {unfinished : List Byte} (hsearch : SearchesFor s fname sLen name pattern)
    (hpattern : pattern ≠ []) (h : Filling data unfinished []) (file : List Byte) (rounds : ℕ) :
    fillLoop (plainFile file) s fname sLen (rounds + 1) [] data unfinished.length =
      some (0, grepOutput name pattern unfinished) := by
  obtain ⟨whole, tail, data₁, result, hsplit, -, -, -, hresult, hrun⟩ :=
    h.round hsearch hpattern file rounds
  have hzero : (([] : List Byte).take (1024 - unfinished.length)).length = 0 := by simp
  rw [hrun]
  cases hresult with
  | kept data' htail hbyte hcnt hbytes hlast =>
    -- nothing is kept behind an empty read
    exact absurd hzero hcnt
  | done data' htail hlast =>
    rw [Option.bind_some, if_pos hzero, ← hsplit, List.take_nil, List.append_nil]

/-- A read that returned bytes: the next fill begins with the tail. -/
theorem Filling.next {unfinished whole tail : List Byte} {data' : Buffer}
    (h : Filling data unfinished rest)
    (hsplit : unfinished ++ rest.take (1024 - unfinished.length) = whole ++ tail)
    (hended : Ended whole) (htail : 0x0A#8 ∉ tail)
    (hbytes : data'.bytesOf 0 tail.length = tail) :
    Filling data' tail (rest.drop (1024 - unfinished.length)) := by
  have hall : whole ++ (tail ++ rest.drop (1024 - unfinished.length)) = unfinished ++ rest := by
    rw [← List.append_assoc, ← hsplit, List.append_assoc, List.take_append_drop]
  have hshort := h.short
  have hnul := h.no_nul
  rw [← hall] at hshort hnul
  exact ⟨hbytes, htail, fun hmem => hnul (List.mem_append_right _ hmem), hshort.behind hended⟩

/-- The same behind lines that have all been searched. -/
theorem Filling.fresh {unfinished : List Byte} (h : Filling data unfinished rest)
    (data' : Buffer) (n : ℕ) (hshort : LinesShort (rest.drop n)) :
    Filling data' [] (rest.drop n) where
  bytes := rfl
  no_newline := List.not_mem_nil
  no_nul hmem := h.no_nul (List.mem_append_right _ (List.mem_of_mem_drop hmem))
  short := hshort

/-- The buffer is full after a fill, or the file is at its end. -/
theorem drop_eq_nil_or_full {unfinished : List Byte} (hlen : unfinished.length ≤ 1024)
    (rest : List Byte) :
    rest.drop (1024 - unfinished.length) = [] ∨
      (unfinished ++ rest.take (1024 - unfinished.length)).length = 1024 := by
  rw [List.drop_eq_nil_iff, List.length_append, List.length_take]
  omega

/-- Nothing is lost when the tail is searched too, if there is none or nothing follows it. -/
theorem Filling.searched {unfinished whole tail : List Byte} (h : Filling data unfinished rest)
    (hpattern : pattern ≠ []) (name : List Byte)
    (hsplit : unfinished ++ rest.take (1024 - unfinished.length) = whole ++ tail)
    (hended : Ended whole) (hcase : rest.drop (1024 - unfinished.length) = [] ∨ tail = []) :
    LinesShort (rest.drop (1024 - unfinished.length)) ∧
      grepOutput name pattern (whole ++ tail) ++
          grepOutput name pattern (rest.drop (1024 - unfinished.length)) =
        grepOutput name pattern (unfinished ++ rest) := by
  have hall : unfinished ++ rest = whole ++ tail ++ rest.drop (1024 - unfinished.length) := by
    rw [← hsplit, List.append_assoc, List.take_append_drop]
  have hshort := h.short
  rw [hall] at hshort ⊢
  rcases hcase with hlast | rfl
  · rw [hlast, grepOutput_nil hpattern, List.append_nil, List.append_nil]
    refine ⟨fun line hline => ?_, rfl⟩
    rw [List.splitOn_nil, List.mem_singleton] at hline
    simp [hline]
  · rw [List.append_nil] at hshort ⊢
    exact ⟨hshort.behind hended, (hended.grepOutput_append hpattern _).symm⟩

/-- A NUL that may be stored is no newline. -/
theorem ite_nul_ne_newline {p : Prop} [Decidable p] {b : Byte} (hb : b ≠ 0x0A#8) :
    (if p then 0#8 else b) ≠ 0x0A#8 := by
  split_ifs
  · decide
  · exact hb

/-- With no newline in the last byte of the buffer, every line is searched as a whole. -/
theorem Filling.exact {unfinished : List Byte} (hsearch : SearchesFor s fname sLen name pattern)
    (hpattern : pattern ≠ []) (h : Filling data unfinished rest) (hbyte : data 1024 ≠ 0x0A#8)
    (file : List Byte) {rounds : ℕ} (hrounds : rest.length < rounds) :
    fillLoop (plainFile file) s fname sLen rounds rest data unfinished.length =
      some (0, grepOutput name pattern (unfinished ++ rest)) := by
  induction rounds generalizing rest data unfinished with
  | zero => omega
  | succ rounds ih =>
    by_cases hrest : rest = []
    · subst hrest
      rw [h.end hsearch hpattern, List.append_nil]
    have hpos : 0 < rest.length := List.length_pos_iff.mpr hrest
    have hlen : unfinished.length ≤ 1000 := h.short.length_le h.no_newline
    have hcnt : (rest.take (1024 - unfinished.length)).length ≠ 0 := by
      rw [List.length_take]
      omega
    have hdrop : (rest.drop (1024 - unfinished.length)).length < rounds := by
      rw [List.length_drop]
      omega
    have hwhole : unfinished ++ rest = (unfinished ++ rest.take (1024 - unfinished.length)) ++
        rest.drop (1024 - unfinished.length) := by
      rw [List.append_assoc, List.take_append_drop]
    obtain ⟨whole, tail, data₁, result, hsplit, hended, htail, hdata₁, hresult, hrun⟩ :=
      h.round hsearch hpattern file rounds
    rw [hrun]
    cases hresult with
    | kept data' htail' hbyte' hcnt' hbytes hlast =>
      -- the next fill goes on with the tail in front
      have hnext := h.next hsplit hended htail hbytes
      have hbyte₁ : data' 1024 ≠ 0x0A#8 := by
        rw [hlast, hdata₁]
        exact ite_nul_ne_newline hbyte
      rw [Option.bind_some, if_neg hcnt, ih hnext hbyte₁ hdrop, Option.map_some, hwhole, hsplit,
        List.append_assoc, hended.grepOutput_append hpattern]
    | done data' hreason hlast =>
      -- the tail is a line, because it is empty or nothing follows it
      have hcase : rest.drop (1024 - unfinished.length) = [] ∨ tail = [] := by
        rcases drop_eq_nil_or_full (by omega : unfinished.length ≤ 1024) rest with hnone | hfull
        · exact Or.inl hnone
        · rw [hfull, hdata₁] at hreason
          rcases hreason with hnil | hnewline | hzero | ⟨-, hnone⟩
          · exact Or.inr hnil
          · exact absurd hnewline hbyte
          · exact absurd hzero hcnt
          · -- a full buffer holds more than one line
            have hshort := h.short
            rw [hwhole, hsplit, hnone, List.nil_append] at hshort
            have hle := hshort.length_le htail
            rw [hsplit, hnone, List.nil_append] at hfull
            omega
      obtain ⟨hshort, hout⟩ := h.searched hpattern name hsplit hended hcase
      have hbyte₁ : data' 1024 ≠ 0x0A#8 := by
        rw [hlast, hdata₁]
        exact ite_nul_ne_newline hbyte
      have hnext := ih (h.fresh data' _ hshort) hbyte₁ hdrop
      rw [Option.bind_some, if_neg hcnt]
      refine (congrArg _ hnext).trans ?_
      rw [Option.map_some, List.nil_append, hout]

/-! ## The line that can be split -/

/-- A fill that does not fill the buffer is the last one that searches for lines, whatever is in the
bytes behind it. -/
theorem Filling.split_last (hsearch : SearchesFor s fname sLen name pattern)
    (hpattern : pattern ≠ []) (h : Filling data [] rest) (hshort : rest.length < 1024)
    (hrest : rest ≠ []) (file : List Byte) (rounds : ℕ) :
    fillLoop (plainFile file) s fname sLen (rounds + 2) rest data 0 =
      some (0, grepOutput name pattern rest) := by
  have htake : rest.take 1024 = rest := List.take_of_length_le hshort.le
  have hdrop : rest.drop 1024 = [] := List.drop_of_length_le hshort.le
  have hcnt : rest.length ≠ 0 := fun h => hrest (List.length_eq_zero_iff.mp h)
  obtain ⟨whole, tail, data₁, result, hsplit, hended, htail, hdata₁, hresult, hrun⟩ :=
    h.round hsearch hpattern file (rounds + 1)
  simp only [List.length_nil, Nat.sub_zero, List.nil_append, htake, hdrop] at hsplit hresult hrun
  rw [hrun]
  cases hresult with
  | kept data' htail' hbyte' hcnt' hbytes hlast =>
    have hnext := h.next (by simpa using htake.trans hsplit) hended htail hbytes
    simp only [List.length_nil, Nat.sub_zero, hdrop] at hnext
    rw [Option.bind_some, if_neg hcnt, hnext.end hsearch hpattern, Option.map_some, hsplit,
      hended.grepOutput_append hpattern]
  | done data' hreason hlast =>
    have hnext : Filling data' [] [] := by
      have hfresh := h.fresh data' 1024
      rw [hdrop] at hfresh
      exact hfresh (by simp [LinesShort])
    have hrest' := hnext.end hsearch hpattern file rounds
    rw [Option.bind_some, if_neg hcnt]
    refine (congrArg _ hrest').trans ?_
    rw [Option.map_some, grepOutput_nil hpattern, List.append_nil, hsplit]

/-- The fills up to the first cut, with a newline in the last byte of the buffer. -/
theorem Filling.split (hsearch : SearchesFor s fname sLen name pattern) (hpattern : pattern ≠ [])
    (h : Filling data [] rest) (hbyte : data 1024 = 0x0A#8) (file : List Byte) {rounds : ℕ}
    (hrounds : rest.length + 1 < rounds) :
    ∃ out, fillLoop (plainFile file) s fname sLen rounds rest data 0 = some (0, out) ∧
      SplitOutput name pattern rest out := by
  induction rounds generalizing rest data with
  | zero => omega
  | succ rounds ih =>
    by_cases hrest : rest = []
    · subst hrest
      refine ⟨_, h.end hsearch hpattern file rounds, fun _ => rfl, fun block hcut => ?_⟩
      exact absurd hcut (not_firstCut_of_short (by simp) block)
    have hpos : 0 < rest.length := List.length_pos_iff.mpr hrest
    obtain ⟨whole, tail, data₁, result, hsplit, hended, htail, hdata₁, hresult, hrun⟩ :=
      h.round hsearch hpattern file rounds
    simp only [List.length_nil, Nat.sub_zero, List.nil_append] at hsplit hresult hrun
    have hcnt : (rest.take 1024).length ≠ 0 := by
      rw [List.length_take]
      omega
    have hdrop : (rest.drop 1024).length + 1 < rounds := by
      rw [List.length_drop]
      omega
    by_cases hshort : rest.length < 1024
    · -- the last fill, and what is left of it
      obtain ⟨rounds, rfl⟩ : ∃ r, rounds = r + 1 := Nat.exists_eq_succ_of_ne_zero (by omega)
      refine ⟨grepOutput name pattern rest, ?_, fun _ => rfl, fun block hcut => ?_⟩
      · exact h.split_last hsearch hpattern hshort hrest file rounds
      · exact absurd hcut (not_firstCut_of_short hshort block)
    · have hfull : (rest.take 1024).length = 1024 := by
        rw [List.length_take]
        omega
      rw [hfull] at hresult
      rw [hrun]
      cases hresult with
      | kept data' htail' hbyte' hcnt' hbytes hlast =>
        -- the byte behind the full buffer is the newline
        rw [hdata₁] at hbyte'
        exact absurd hbyte hbyte'
      | done data' hreason hlast =>
        rw [Option.bind_some, if_neg hcnt]
        by_cases hnone : tail = []
        · -- the block ends in a newline
          subst hnone
          rw [if_neg (fun h => h.2 rfl), hdata₁] at hlast
          rw [List.append_nil] at hsplit ⊢
          have hended' : Ended (rest.take 1024) := hsplit ▸ hended
          have hnewline : rest[1023]? = some 0x0A#8 := by
            rw [← List.getElem?_take_of_lt (by decide : 1023 < 1024)]
            exact hended'.getElem?_last hfull
          have hnext : Filling data' [] (rest.drop 1024) := by
            have hfresh := h.short
            rw [List.nil_append, ← List.take_append_drop 1024 rest] at hfresh
            exact h.fresh data' 1024 (hfresh.behind hended')
          obtain ⟨out, hout, hsplits⟩ := ih hnext (hlast.trans hbyte) hdrop
          refine ⟨_, ?_, hsplits.block hpattern hended' hnewline⟩
          rw [← hsplit]
          exact congrArg _ hout
        · -- the first cut: its line is searched, and the rest of it is the next line
          rw [if_pos ⟨rfl, hnone⟩] at hlast
          have hcut : FirstCut rest 0 := firstCut_zero hsplit hfull htail hnone
          have hnext : Filling data' [] (rest.drop 1024) := by
            have hfresh := h.short
            rw [List.nil_append, ← List.take_append_drop 1024 rest, hsplit, List.append_assoc]
              at hfresh
            exact h.fresh data' 1024 ((hfresh.behind hended).of_append htail)
          -- the NUL of that line has taken the place of the newline
          have hexact := hnext.exact hsearch hpattern (by rw [hlast]; decide) file
            (Nat.lt_of_succ_lt hdrop)
          rw [← hsplit]
          refine ⟨_, congrArg _ hexact, fun hno => absurd hcut (hno 0), fun block hblock => ?_⟩
          rw [hblock.unique hcut]
          rfl

/-! ## The whole file -/

/-- `do_one_file` returns 0 and has written `out`. -/
def GrepWrites (s fname data : Buffer) (file out : List Byte) : Prop :=
  ∃ rounds, doOneFile (plainFile file) s fname data rounds = some (0, out)

/-- `do_one_file` returns 0 and has written the lines that match. -/
def GrepExact (s fname data : Buffer) (name pattern file : List Byte) : Prop :=
  GrepWrites s fname data file (grepOutput name pattern file)

/-- The byte behind the buffer that is read into is a newline, and the first block of the file that
does not end in one ends inside a line that matches. -/
def SplitsLine (data : Buffer) (file pattern : List Byte) : Prop :=
  data 1024 = 0x0A#8 ∧ ∃ block, FirstCut file block ∧
    (file.drop (1024 * (block + 1))).takeWhile inLine ≠ [] ∧
      pattern <:+: (file.take (1024 * (block + 1))).rtakeWhile inLine ++
        (file.drop (1024 * (block + 1))).takeWhile inLine

/-- A result is not changed by more rounds. -/
theorem fillLoop_mono {σ : Type} {calls : FileCalls σ} {rounds rounds' : ℕ} {fd : σ}
    {out : ℤ × List Byte} (hle : rounds ≤ rounds')
    (h : fillLoop calls s fname sLen rounds fd data last = some out) :
    fillLoop calls s fname sLen rounds' fd data last = some out := by
  induction rounds generalizing rounds' fd data last out with
  | zero => cases h
  | succ rounds ih =>
    obtain ⟨rounds', rfl⟩ : ∃ r, rounds' = r + 1 := Nat.exists_eq_succ_of_ne_zero (by omega)
    rw [fillLoop] at h ⊢
    cases hread : calls.read fd (1024 - last) with
    | none => rwa [hread] at h
    | some r =>
      rw [hread] at h
      obtain ⟨⟨data', last', out'⟩, hscan, h⟩ := Option.bind_eq_some_iff.mp h
      refine Option.bind_eq_some_iff.mpr ⟨_, hscan, ?_⟩
      simp only at h ⊢
      split_ifs at h ⊢
      · exact h
      · exact h
      · obtain ⟨o, hrest, h⟩ := Option.bind_eq_some_iff.mp h
        exact Option.bind_eq_some_iff.mpr ⟨o, ih (by omega) hrest, h⟩

theorem doOneFile_eq (hlen : ece391Strlen s = some sLen) (file : List Byte) (rounds : ℕ) :
    doOneFile (plainFile file) s fname data rounds =
      fillLoop (plainFile file) s fname sLen rounds file data 0 := by
  rw [doOneFile, hlen]
  rfl

theorem GrepWrites.unique {file out out' : List Byte} (hlen : ece391Strlen s = some sLen)
    (h : GrepWrites s fname data file out) (h' : GrepWrites s fname data file out') :
    out = out' := by
  obtain ⟨rounds, h⟩ := h
  obtain ⟨rounds', h'⟩ := h'
  rw [doOneFile_eq hlen] at h h'
  -- both runs go on to a common number of rounds
  have hmax := fillLoop_mono (Nat.le_max_left rounds rounds') h
  have hmax' := fillLoop_mono (Nat.le_max_right rounds rounds') h'
  exact (Prod.mk.inj (Option.some.inj (hmax.symm.trans hmax'))).2

theorem filling_start {file : List Byte} (hnul : 0#8 ∉ file) (hshort : LinesShort file) :
    Filling data [] file where
  bytes := rfl
  no_newline := List.not_mem_nil
  no_nul := hnul
  short := hshort

/-- The output of a file with a cut, after a newline in the last byte of the buffer. -/
theorem grepWrites_iff_of_cut {file : List Byte} (hlen : ece391Strlen s = some sLen)
    (hsearch : SearchesFor s fname sLen name pattern) (hpattern : pattern ≠ [])
    (hnul : 0#8 ∉ file) (hshort : LinesShort file) (hbyte : data 1024 = 0x0A#8) {block : ℕ}
    (hcut : FirstCut file block) :
    GrepWrites s fname data file (grepOutput name pattern file) ↔
      ((file.drop (1024 * (block + 1))).takeWhile inLine ≠ [] →
        ¬ pattern <:+: (file.take (1024 * (block + 1))).rtakeWhile inLine ++
          (file.drop (1024 * (block + 1))).takeWhile inLine) := by
  obtain ⟨out, hrun, hout⟩ := (filling_start hnul hshort).split hsearch hpattern hbyte file
    (Nat.lt_succ_self (file.length + 1))
  have hcompare := grepOutput_cut_iff name hpattern hcut.rtakeWhile_ne_nil
    (file.drop (1024 * (block + 1)))
  rw [← hout.cut block hcut, List.take_append_drop] at hcompare
  rw [← hcompare]
  have hwrites : GrepWrites s fname data file out := ⟨_, (doOneFile_eq hlen file _).trans hrun⟩
  exact ⟨hwrites.unique hlen, fun heq => heq ▸ hwrites⟩

/-- The lines that the search should find are written, but for a line that is split. -/
theorem grepWrites_iff {file : List Byte} (hlen : ece391Strlen s = some sLen)
    (hsearch : SearchesFor s fname sLen name pattern) (hpattern : pattern ≠ [])
    (hnul : 0#8 ∉ file) (hshort : LinesShort file) (data : Buffer) :
    GrepWrites s fname data file (grepOutput name pattern file) ↔
      ¬ SplitsLine data file pattern := by
  by_cases hbyte : data 1024 = 0x0A#8
  · by_cases hcut : ∃ block, FirstCut file block
    · obtain ⟨block, hcut⟩ := hcut
      rw [grepWrites_iff_of_cut hlen hsearch hpattern hnul hshort hbyte hcut]
      constructor
      · -- there is one first cut
        rintro hok ⟨-, block', hcut', hne, hmatch⟩
        rw [hcut'.unique hcut] at hne hmatch
        exact hok hne hmatch
      · exact fun hno hne hmatch => hno ⟨hbyte, block, hcut, hne, hmatch⟩
    · -- every full block ends in a newline
      obtain ⟨out, hrun, hout⟩ := (filling_start hnul hshort).split hsearch hpattern hbyte file
        (Nat.lt_succ_self (file.length + 1))
      rw [hout.uncut (not_exists.mp hcut)] at hrun
      refine iff_of_true ⟨_, (doOneFile_eq hlen file _).trans hrun⟩ ?_
      rintro ⟨-, block, hblock, -⟩
      exact hcut ⟨block, hblock⟩
  · have hrun := (filling_start hnul hshort).exact hsearch hpattern hbyte file
      (Nat.lt_succ_self file.length)
    exact iff_of_true ⟨_, (doOneFile_eq hlen file _).trans hrun⟩ fun h => hbyte h.1

/-- Nothing is written if the pattern starts with a negative character. -/
theorem grepWrites_nil {file : List Byte} (hs : Spells s pattern) (hpattern : pattern ≠ [])
    (hchar : StartsNegative pattern) (hnul : 0#8 ∉ file) (hshort : LinesShort file) :
    GrepWrites s fname data file [] := by
  -- no line contains a newline, so none that does is split
  have hsplit : ¬ SplitsLine data file [0x0A#8] := by
    rintro ⟨-, block, -, -, hmatch⟩
    have hmem := hmatch.subset (List.mem_singleton_self _)
    rcases List.mem_append.mp hmem with hmem | hmem
    · exact (ended_rdropWhile _).2 hmem
    · exact absurd (List.mem_takeWhile_imp hmem) (by decide)
  have hsearch : SearchesFor s fname pattern.length [] [0x0A#8] :=
    searchesFor_newline hs hpattern hchar []
  rw [← grepOutput_newline [] file]
  exact (grepWrites_iff hs.1 hsearch (List.cons_ne_nil _ _) hnul hshort data).mpr hsplit

/-- `grep` prints exactly the lines that match, but for a line that is split, and for all of them
if the pattern starts with a negative character. -/
theorem grepExact_iff {file : List Byte} (hs : Spells s pattern) (hname : Spells fname name)
    (hpattern : pattern ≠ []) (hnul : 0#8 ∉ file) (hshort : LinesShort file) (data : Buffer) :
    GrepExact s fname data name pattern file ↔
      (StartsNegative pattern → ∀ line ∈ file.splitOn 0x0A#8, ¬ pattern <:+: line) ∧
        (¬ StartsNegative pattern → ¬ SplitsLine data file pattern) := by
  by_cases hchar : StartsNegative pattern
  · have hwrites : GrepWrites s fname data file [] :=
      grepWrites_nil hs hpattern hchar hnul hshort
    rw [← grepOutput_eq_nil_iff name]
    constructor
    · exact fun h => ⟨fun _ => h.unique hs.1 hwrites, fun hno => absurd hchar hno⟩
    · intro h
      rw [GrepExact, h.1 hchar]
      exact hwrites
  · have hsearch := searchesFor_pattern hs hpattern hchar hname
    rw [GrepExact, grepWrites_iff hs.1 hsearch hpattern hnul hshort]
    exact ⟨fun h => ⟨fun hneg => absurd hneg hchar, fun _ => h⟩, fun h => h.2 hchar⟩

/-- A word in a short file, with newlines on the stack. -/
theorem grepExact_word :
    GrepExact (cString "de" fun _ => 0x0A#8) (cString "f" fun _ => 0#8) (fun _ => 0x0A#8)
      (ascii "f") (ascii "de") (ascii "ab\ncde") := by
  refine (grepExact_iff (spells_cString "de" (by decide) (by decide) _)
    (spells_cString "f" (by decide) (by decide) _) (by decide) (by decide) ?_ _).mpr ⟨?_, ?_⟩
  · rw [LinesShort]
    decide
  · rintro ⟨b, hb, hneg⟩
    cases hb
    exact absurd hneg (by decide)
  · rintro - ⟨-, block, hcut, -⟩
    exact not_firstCut_of_short (by decide) block hcut

/-- The last line of the file has the pattern across the end of the first block. -/
theorem not_grepExact_split :
    ¬ GrepExact (cString "de" fun _ => 0#8) (cString "f" fun _ => 0#8) (fun _ => 0x0A#8)
      (ascii "f") (ascii "de") (List.replicate 1020 0x0A#8 ++ ascii "abcdefgh") := by
  have hs : Spells (cString "de" fun _ => 0#8) (ascii "de") :=
    spells_cString "de" (by decide) (by decide) _
  have hname : Spells (cString "f" fun _ => 0#8) (ascii "f") :=
    spells_cString "f" (by decide) (by decide) _
  have hchar : ¬ StartsNegative (ascii "de") := by
    rintro ⟨b, hb, hneg⟩
    cases hb
    exact absurd hneg (by decide)
  have hnul : 0#8 ∉ List.replicate 1020 0x0A#8 ++ ascii "abcdefgh" := by
    rw [List.mem_append, List.mem_replicate]
    decide
  have hshort : LinesShort (List.replicate 1020 0x0A#8 ++ ascii "abcdefgh") := by
    apply linesShort_replicate_append
    rw [LinesShort]
    decide
  have hlen : (List.replicate 1020 0x0A#8 : List Byte).length = 1020 := List.length_replicate
  have hcut : FirstCut (List.replicate 1020 0x0A#8 ++ ascii "abcdefgh") 0 := by
    refine ⟨fun i hi => absurd hi (Nat.not_lt_zero i), 0x64#8, ?_, by decide⟩
    rw [List.getElem?_append_right (hlen.trans_le (by decide)), hlen]
    rfl
  rw [GrepExact, grepWrites_iff_of_cut hs.1 (searchesFor_pattern hs (by decide) hchar hname)
    (by decide) hnul hshort rfl hcut]
  -- the line is cut into two halves
  have hbefore : ((List.replicate 1020 0x0A#8 ++ ascii "abcdefgh").take
      (1024 * (0 + 1))).rtakeWhile inLine = ascii "abcd" := by
    rw [List.take_append, hlen, List.take_of_length_le (hlen.trans_le (by decide)),
      List.rtakeWhile, List.reverse_append, List.reverse_replicate]
    rfl
  have hbehind : ((List.replicate 1020 0x0A#8 ++ ascii "abcdefgh").drop
      (1024 * (0 + 1))).takeWhile inLine = ascii "efgh" := by
    rw [List.drop_append, hlen, List.drop_of_length_le (hlen.trans_le (by decide))]
    rfl
  rw [hbefore, hbehind]
  decide
end

end Ece391
