import Ece391Os.Grep.Support
import Ece391Os.Programs.Cat

/-!
# Emulation

`ece391emulate.c`, with which the programs run under Linux. There `execute` splits the command into
the strings of `execv`, and `getargs` puts those of the new program together again.

* `ece391Execute_splits`: the strings are the words of the command, the first one behind `./`, and
  neither `buf` nor `args` is left.
* `reads_entries`: reads of the directory give one entry after the other, each with NULs behind the
  name, and then 0. `read_overflows_iff`: one stores behind the bytes that it may use exactly if
  there are none and the entry has a name.
* `getargs_spec`: when `getargs` succeeds, what it gives, and when it stores a byte behind the
  `nbytes` that it may use.
* `sameArgs_iff`: a program gets the same argument as from the kernel exactly when there is one
  space between any two words and none around them.
-/

namespace Ece391.Emulate

/-! ## The library -/

/-- How a child has ended. -/
inductive ChildEnd
  | exited (status : Byte)
  | signalled (number : ℕ)
  deriving DecidableEq

/-- What `ece391_execute` returns for the end of the child. -/
def childValue : ChildEnd → Word
  | .exited status => status.setWidth 32
  | .signalled number => if number = 9 then -1#32 else 256#32

/-- A byte that ends a word. -/
def endsWord (b : Byte) : Bool := b == 0#8 || b == 0x20#8 || b == 0x0A#8

/-- The loop of `ece391_execute` over the arguments: `buf` and `args`, whose pointers are indices of
`buf`. -/
def splitLoop : ℕ → Buffer → ℕ → List ℕ → Option (Buffer × List ℕ)
  | 0, _, _, _ => none
  | rounds + 1, buf, scan, args => do
    let skip ← Buffer.scan (fun j => buf (scan + j)) fun b => b != 0x20#8
    let scan := scan + skip
    if buf scan = 0#8 ∨ buf scan = 0x0A#8 then return (Function.update buf scan 0#8, args)
    else
      let args := args ++ [scan]
      let n ← Buffer.scan (fun j => buf (scan + j)) endsWord
      let scan := scan + n
      if buf scan ≠ 0#8 then splitLoop rounds (Function.update buf scan 0#8) (scan + 1) args
      else splitLoop rounds buf scan args

/-- `ece391_execute` up to the `fork`, with what is on the stack where `buf` is: the value if it
returns, and `buf` and `args` if it does not. -/
def splitCommand (command stack : Buffer) : Option (Word ⊕ Buffer × List ℕ) := do
  let len ← ece391Strlen command
  if 1023 < len then return .inl (-1#32)
  else
    let buf := Function.update (Function.update stack 0 0x2E#8) 1 0x2F#8
    -- `ece391_strcpy`
    let buf := Buffer.splice buf 2 command (len + 1)
    let n ← Buffer.scan (fun j => buf (2 + j)) endsWord
    let scan := 2 + n
    if buf scan ≠ 0#8 then
      let split ← splitLoop 1024 (Function.update buf scan 0#8) (scan + 1) [0]
      return .inr split
    else return .inr (buf, [0])

/-- `ece391_execute`, where `execv` runs the child. -/
def ece391Execute (execv : Buffer → List ℕ → ChildEnd) (command stack : Buffer) : Option Word :=
  (splitCommand command stack).map fun
    | .inl value => value
    | .inr (buf, args) => childValue (execv buf args)

/-- The stores of `ece391_strcpy(buf + dst, s)`. -/
def strcpyStores (dst : ℕ) (s : Buffer) (len : ℕ) : List (ℕ × Byte) :=
  (List.range (len + 1)).map fun j => (dst + j, s j)

/-- The loop of `ece391_getargs` from `argv[idx]` on, for a buffer of which `pos` bytes have been
filled and `nbytes` are left: the value and the stores. -/
def getargsLoop : List Buffer → ℕ → ℤ → Option (Word × List (ℕ × Byte))
  | [], pos, nbytes => if nbytes < 1 then some (-1#32, []) else some (0#32, [(pos, 0#8)])
  | arg :: rest, pos, nbytes => do
    let n ← ece391Strlen arg
    let len := (BitVec.ofNat 32 n).toInt
    if nbytes < len then return (-1#32, [])
    else
      let stores := strcpyStores pos arg n
      let pos := pos + len.toNat
      let nbytes := nbytes - len
      if rest = [] then
        if nbytes < 1 then return (-1#32, stores) else return (0#32, stores ++ [(pos, 0#8)])
      else if nbytes < 1 then return (-1#32, stores)
      else
        let (value, later) ← getargsLoop rest (pos + 1) (nbytes - 1)
        return (value, stores ++ (pos, 0x20#8) :: later)

/-- `ece391_getargs`, with the strings that the program has been started with: the value and the
stores to `buf`. -/
def ece391Getargs (argv : List Buffer) (nbytes : Word) : Option (Word × List (ℕ × Byte)) :=
  getargsLoop argv.tail 0 nbytes.toInt

/-- `dir` and `dir_fd`, with the names of the entries that `readdir` has not returned yet. -/
structure OpenDir where
  fd : Word
  entries : List Buffer

/-- The second loop of `ece391_read`, with `left` bytes to go up to 32: the value and the stores. -/
def padName (nbytes : ℤ) : ℕ → ℕ → ℕ × List (ℕ × Byte)
  | 0, copied => (copied, [])
  | left + 1, copied =>
    if copied < nbytes then
      let (value, stores) := padName nbytes left (copied + 1)
      (value, (copied, 0#8) :: stores)
    else (copied, [])

/-- The first loop of `ece391_read`, over the name of an entry. -/
def copyName (name : Buffer) (nbytes : ℤ) : ℕ → ℕ → ℕ × List (ℕ × Byte)
  | 0, copied => (copied, [])
  | left + 1, copied =>
    if name copied = 0#8 then padName nbytes (left + 1) copied
    else if (copied + 1 : ℤ) = nbytes then (copied + 1, [(copied, name copied)])
    else
      let (value, stores) := copyName name nbytes left (copied + 1)
      (value, (copied, name copied) :: stores)

/-- `ece391_read`, where `read` is the one of Linux: the value, the stores to `buf` and what is left
of the directory. -/
def ece391Read (read : Word → Word → Word × List (ℕ × Byte)) (dir : Option OpenDir)
    (fd nbytes : Word) : (Word × List (ℕ × Byte)) × Option OpenDir :=
  match dir with
  | none => (read fd nbytes, dir)
  | some d =>
    if d.fd ≠ fd then (read fd nbytes, dir)
    else match d.entries with
      | [] => ((0#32, []), dir)
      | name :: entries =>
        let (value, stores) := copyName name nbytes.toInt 32 0
        ((BitVec.ofNat 32 value, stores), some { d with entries })

/-- Reads of one descriptor, with the `nbytes` of each. -/
def reads (read : Word → Word → Word × List (ℕ × Byte)) (fd : Word) :
    Option OpenDir → List Word → List (Word × List (ℕ × Byte))
  | _, [] => []
  | dir, nbytes :: sizes =>
    let (result, dir) := ece391Read read dir fd nbytes
    result :: reads read fd dir sizes

/-! ## Splitting -/

/-- The words of a text. -/
def words (text : List Byte) : List (List Byte) := (text.splitOn 0x20#8).filter (· ≠ [])

/-- Words with one space between any two. -/
def joined (ws : List (List Byte)) : List Byte := [0x20#8].intercalate ws

variable {text word : List Byte} {ws : List (List Byte)}

theorem words_nil : words [] = [] := rfl

theorem words_space (text : List Byte) : words (0x20#8 :: text) = words text := by
  have hsplit := List.splitOn_append_cons_self (a := 0x20#8) [] text
  rw [List.nil_append, List.splitOn_nil, List.singleton_append] at hsplit
  rw [words, hsplit, List.filter_cons_of_neg (by simp), words]

theorem words_spaces (n : ℕ) (text : List Byte) :
    words (List.replicate n 0x20#8 ++ text) = words text := by
  induction n with
  | zero => rfl
  | succ n ih => rw [List.replicate_succ, List.cons_append, words_space, ih]

theorem words_word (hword : 0x20#8 ∉ word) (hne : word ≠ []) : words word = [word] := by
  rw [words, List.splitOn_eq_singleton hword, List.filter_cons_of_pos (by simpa using hne),
    List.filter_nil]

theorem words_word_space (hword : 0x20#8 ∉ word) (hne : word ≠ []) (text : List Byte) :
    words (word ++ 0x20#8 :: text) = word :: words text := by
  rw [words, List.splitOn_append_cons_self_of_not_mem hword,
    List.filter_cons_of_pos (by simpa using hne), words]

/-- A text starts with some spaces, and another byte behind them if there is one. -/
theorem exists_spaces (text : List Byte) :
    ∃ n rest, text = List.replicate n 0x20#8 ++ rest ∧ rest.head? ≠ some 0x20#8 := by
  induction text with
  | nil => exact ⟨0, [], rfl, by simp⟩
  | cons b text ih =>
    by_cases hb : b = 0x20#8
    · obtain ⟨n, rest, rfl, hrest⟩ := ih
      exact ⟨n + 1, rest, by rw [hb]; rfl, hrest⟩
    · exact ⟨0, b :: text, rfl, by simpa using hb⟩

/-- A text has only spaces, or one word between spaces, or a word with a space and a text behind
it. -/
@[elab_as_elim]
theorem words_induction {P : List Byte → Prop} (spaces : ∀ n, P (List.replicate n 0x20#8))
    (last : ∀ n word, 0x20#8 ∉ word → word ≠ [] → P (List.replicate n 0x20#8 ++ word))
    (more : ∀ n word rest, 0x20#8 ∉ word → word ≠ [] → P rest →
      P (List.replicate n 0x20#8 ++ (word ++ 0x20#8 :: rest)))
    (text : List Byte) : P text := by
  induction hlen : text.length using Nat.strong_induction_on generalizing text with
  | _ len ih =>
    obtain ⟨n, rest, rfl, hrest⟩ := exists_spaces text
    by_cases hnil : rest = []
    · rw [hnil, List.append_nil]
      exact spaces n
    by_cases hmem : 0x20#8 ∈ rest
    · obtain ⟨word, later, rfl, hword⟩ := List.eq_append_cons_of_mem hmem
      refine more n word later hword ?_ (ih _ ?_ later rfl)
      · rintro rfl
        exact hrest rfl
      · rw [← hlen]
        simp only [List.length_append, List.length_cons]
        omega
    · exact last n rest hmem hnil

theorem mem_words (text : List Byte) : ∀ w ∈ words text, 0x20#8 ∉ w ∧ w ≠ [] := by
  induction text using words_induction with
  | spaces n =>
    rw [← List.append_nil (List.replicate n _), words_spaces, words_nil]
    exact fun w hw => absurd hw List.not_mem_nil
  | last n word hword hne =>
    rw [words_spaces, words_word hword hne]
    exact List.forall_mem_singleton.mpr ⟨hword, hne⟩
  | more n word rest hword hne ih =>
    rw [words_spaces, words_word_space hword hne]
    exact List.forall_mem_cons.mpr ⟨⟨hword, hne⟩, ih⟩

/-- The words are those of the text exactly when there are no other spaces. -/
theorem joined_words_iff (text : List Byte) :
    joined (words text) = text ↔ text = [] ∨ [] ∉ text.splitOn 0x20#8 := by
  constructor
  · intro hjoined
    by_cases hnil : words text = []
    · left
      rw [← hjoined, hnil]
      rfl
    · right
      have hsplit := List.splitOn_intercalate 0x20#8 (fun w hw => (mem_words text w hw).1) hnil
      rw [show [0x20#8].intercalate (words text) = text from hjoined] at hsplit
      rw [hsplit]
      exact fun hmem => (mem_words text [] hmem).2 rfl
  · rintro (rfl | hmem)
    · rfl
    · rw [joined, words, List.filter_eq_self.mpr, List.intercalate_splitOn]
      intro w hw
      refine decide_eq_true fun hnil => hmem ?_
      rwa [← hnil]

/-! ## `execute` -/

section

variable {buf s : Buffer} {rest tail : List Byte} {scan n rounds : ℕ} {args : List ℕ}

/-- The scan over spaces stops at the first other byte, or at the NUL. -/
theorem scan_spaces (h : Spells s (List.replicate n 0x20#8 ++ rest))
    (hrest : rest.head? ≠ some 0x20#8) : (s.scan fun b => b != 0x20#8) = some n := by
  have hlen := (strlen_eq_some.mp h.1).1
  rw [List.length_append, List.length_replicate] at hlen
  refine Buffer.scan_eq_some.mpr ⟨by omega, ?_, fun j hj => ?_⟩
  · rw [bne_iff_ne]
    cases rest with
    | nil =>
      have hnul := h.eq_nul
      rw [List.append_nil, List.length_replicate] at hnul
      rw [hnul]
      decide
    | cons b rest =>
      have hb := h.eq_getElem (j := n) (by simp)
      rw [List.getElem_append_right (by simp)] at hb
      rw [hb]
      simpa using hrest
  · have hb := h.eq_getElem (j := j) (by simp; omega)
    rw [List.getElem_append_left (by simpa using hj), List.getElem_replicate] at hb
    rw [hb]
    decide

/-- The scan over a word stops at the space behind it, or at the NUL. -/
theorem scan_word (h : Spells s (word ++ tail)) (hspace : 0x20#8 ∉ word) (hnewline : 0x0A#8 ∉ word)
    (htail : ∀ b ∈ tail.head?, b = 0x20#8) : s.scan endsWord = some word.length := by
  have hlen := (strlen_eq_some.mp h.1).1
  rw [List.length_append] at hlen
  refine Buffer.scan_eq_some.mpr ⟨by omega, ?_, fun j hj => ?_⟩
  · cases tail with
    | nil =>
      have hnul := h.eq_nul
      rw [List.append_nil] at hnul
      rw [hnul]
      rfl
    | cons b tail =>
      have hb := h.eq_getElem (j := word.length) (by simp)
      rw [List.getElem_append_right le_rfl] at hb
      simp only [Nat.sub_self, List.getElem_cons_zero] at hb
      rw [hb, htail b rfl]
      rfl
  · have hb := h.eq_getElem (j := j) (by simp; omega)
    rw [List.getElem_append_left hj] at hb
    have hnul : 0#8 ∉ word := fun hmem => h.nul_notMem (List.mem_append_left _ hmem)
    have hmem := List.getElem_mem hj
    rw [hb]
    simp only [endsWord, Bool.or_eq_true, beq_iff_eq, not_or]
    exact ⟨⟨fun heq => hnul (heq ▸ hmem), fun heq => hspace (heq ▸ hmem)⟩,
      fun heq => hnewline (heq ▸ hmem)⟩

/-- The string from a later byte of the buffer on. -/
theorem spells_behind (h : Spells (fun j => buf (scan + j)) (text ++ rest)) :
    Spells (fun j => buf (scan + text.length + j)) rest := by
  have hdrop := h.drop (n := text.length) (by simp)
  rw [List.drop_left] at hdrop
  simpa only [Nat.add_assoc] using hdrop

/-- The buffer has nothing but spaces left. -/
theorem splitLoop_spaces (h : Spells (fun j => buf (scan + j)) (List.replicate n 0x20#8)) :
    splitLoop (rounds + 1) buf scan args = some (buf, args) := by
  have h' : Spells (fun j => buf (scan + j)) (List.replicate n 0x20#8 ++ []) := by
    rwa [List.append_nil]
  have hskip := scan_spaces h' (by simp)
  have hnul := h.eq_nul
  rw [List.length_replicate] at hnul
  simp only [splitLoop, hskip, Option.bind_eq_bind, Option.bind_some]
  rw [if_pos (Or.inl hnul)]
  exact congrArg (fun buf => some (buf, args)) (Function.update_eq_self_iff.mpr hnul.symm)

/-- A round takes a word. -/
theorem splitLoop_word
    (h : Spells (fun j => buf (scan + j)) (List.replicate n 0x20#8 ++ (word ++ tail)))
    (hspace : 0x20#8 ∉ word) (hnewline : 0x0A#8 ∉ word) (hne : word ≠ [])
    (htail : ∀ b ∈ tail.head?, b = 0x20#8) :
    splitLoop (rounds + 1) buf scan args =
      if tail = [] then splitLoop rounds buf (scan + n + word.length) (args ++ [scan + n])
      else splitLoop rounds (Function.update buf (scan + n + word.length) 0#8)
        (scan + n + word.length + 1) (args ++ [scan + n]) := by
  have hbehind := spells_behind h
  rw [List.length_replicate] at hbehind
  obtain ⟨b, more, rfl⟩ := List.exists_cons_of_ne_nil hne
  have hfirst : buf (scan + n) = b := hbehind.eq_getElem (j := 0) (by simp)
  have hnul : b ≠ 0#8 := fun heq => h.nul_notMem (by simp [heq])
  have hline : b ≠ 0x0A#8 := fun heq => hnewline (heq ▸ List.mem_cons_self)
  have hblank : b ≠ 0x20#8 := fun heq => hspace (heq ▸ List.mem_cons_self)
  have hskip := scan_spaces h (by simpa using hblank)
  have hword := scan_word hbehind hspace hnewline htail
  -- behind the word is a space, or the NUL
  have hend : buf (scan + n + (b :: more).length) ≠ 0#8 ↔ ¬ tail = [] := by
    have hrest := spells_behind hbehind
    cases tail with
    | nil => exact iff_of_false (fun hne => hne hrest.eq_nul) (fun hne => hne rfl)
    | cons c tail =>
      have hc : buf (scan + n + (b :: more).length) = c := hrest.eq_getElem (j := 0) (by simp)
      rw [hc, htail c rfl]
      exact iff_of_true (by decide) (List.cons_ne_nil _ _)
  simp only [splitLoop, hskip, hword, Option.bind_eq_bind, Option.bind_some]
  rw [if_neg (by rw [hfirst]; exact not_or.mpr ⟨hnul, hline⟩), if_congr hend rfl rfl, ite_not]

/-- The pointers of `args` to the words, which are where the text has been. -/
def PointsTo (buf : Buffer) (scan n : ℕ) (args : List ℕ) (ws : List (List Byte)) : Prop :=
  List.Forall₂ (fun o w => Spells (fun j => buf (o + j)) w ∧ scan ≤ o ∧ o + w.length ≤ scan + n)
    args ws

theorem PointsTo.mono {ws : List (List Byte)} {scan' n' : ℕ} (h : PointsTo buf scan n args ws)
    (hle : scan' ≤ scan) (hend : scan + n ≤ scan' + n') : PointsTo buf scan' n' args ws :=
  h.imp fun _ _ hword => ⟨hword.1, hle.trans hword.2.1, hword.2.2.trans hend⟩

/-- The loop splits a text into its words, inside of it. -/
theorem splitLoop_eq (h : Spells (fun j => buf (scan + j)) text) (hnewline : 0x0A#8 ∉ text)
    (hrounds : text.length + 1 < rounds) (args : List ℕ) :
    ∃ buf' offs, splitLoop rounds buf scan args = some (buf', args ++ offs) ∧
      PointsTo buf' scan text.length offs (words text) ∧
      ∀ a, a < scan ∨ scan + text.length ≤ a → buf' a = buf a := by
  -- one round for every word, and one for the end
  obtain ⟨r, rfl⟩ : ∃ r, rounds = r + 2 := ⟨rounds - 2, by omega⟩
  induction text using words_induction generalizing buf scan args r with
  | spaces n =>
    refine ⟨buf, [], ?_, ?_, fun _ _ => rfl⟩
    · rw [splitLoop_spaces h, List.append_nil]
    · rw [← List.append_nil (List.replicate n _), words_spaces, words_nil]
      exact .nil
  | last n word hspace hne =>
    have hline : 0x0A#8 ∉ word := fun hmem => hnewline (List.mem_append_right _ hmem)
    have hbehind := spells_behind h
    rw [List.length_replicate] at hbehind
    have h' : Spells (fun j => buf (scan + j)) (List.replicate n 0x20#8 ++ (word ++ [])) := by
      rwa [List.append_nil]
    have hbehind' : Spells (fun j => buf (scan + n + j)) (word ++ List.replicate 0 0x20#8) := by
      rwa [List.replicate_zero, List.append_nil]
    refine ⟨buf, [scan + n], ?_, ?_, fun _ _ => rfl⟩
    · rw [splitLoop_word h' hspace hline hne (by simp), if_pos rfl]
      exact splitLoop_spaces (spells_behind hbehind')
    · rw [words_spaces, words_word hspace hne]
      refine .cons ⟨hbehind, Nat.le_add_right _ _, ?_⟩ .nil
      rw [List.length_append, List.length_replicate, Nat.add_assoc]
  | more n word rest hspace hne ih =>
    have hline : 0x0A#8 ∉ word := fun hmem =>
      hnewline (List.mem_append_right _ (List.mem_append_left _ hmem))
    have hlater : 0x0A#8 ∉ rest := fun hmem =>
      hnewline (List.mem_append_right _ (List.mem_append_right _ (List.mem_cons_of_mem _ hmem)))
    have hbehind := spells_behind h
    rw [List.length_replicate] at hbehind
    have hlen : (List.replicate n 0x20#8 ++ (word ++ 0x20#8 :: rest)).length =
        n + word.length + 1 + rest.length := by
      simp only [List.length_append, List.length_replicate, List.length_cons]
      omega
    rw [hlen] at hrounds
    -- the space becomes a NUL
    set last := scan + n + word.length with hlast
    set buf₁ := Function.update buf last 0#8 with hbuf₁
    have hother : ∀ a, a ≠ last → buf₁ a = buf a := fun a ha => Function.update_of_ne ha _ _
    have hrest : Spells (fun j => buf₁ (last + 1 + j)) rest := by
      have hcopy : ∀ j, buf₁ (last + 1 + j) = buf (last + 1 + j) := fun j => hother _ (by omega)
      simp only [hcopy]
      exact @spells_behind [0x20#8] _ _ _ (spells_behind hbehind)
    have hpos : 0 < word.length := List.length_pos_iff.mpr hne
    obtain ⟨q, rfl⟩ : ∃ q, r = q + 1 := ⟨r - 1, by omega⟩
    obtain ⟨buf', offs, hloop, hpoints, hframe⟩ :=
      ih hrest hlater (args ++ [scan + n]) q (by omega)
    refine ⟨buf', (scan + n) :: offs, ?_, ?_, ?_⟩
    · rw [splitLoop_word h hspace hline hne (by simp), if_neg (List.cons_ne_nil _ _), hloop,
        List.append_assoc, List.singleton_append]
    · rw [words_spaces, words_word_space hspace hne, hlen]
      refine .cons ⟨?_, Nat.le_add_right _ _, by omega⟩ (hpoints.mono (by omega) (by omega))
      -- the word is not touched any more
      apply spells_of_bytes
      · exact fun hmem => h.nul_notMem (List.mem_append_right _ (List.mem_append_left _ hmem))
      · have hbound := (strlen_eq_some.mp h.1).1
        omega
      · intro j hj
        have hb := hbehind.eq_getElem (j := j) (by rw [List.length_append]; omega)
        rw [List.getElem_append_left hj] at hb
        rw [hframe _ (Or.inl (by omega)), hother _ (by omega)]
        exact hb
      · rw [hframe _ (Or.inl (by omega)), hbuf₁, Function.update_self]
    · intro a ha
      rw [hlen] at ha
      rw [hframe a (by omega), hother a (by omega)]

/-- A text has at most half as many words as characters. -/
theorem length_words_le (text : List Byte) : 2 * (words text).length ≤ text.length + 1 := by
  induction text using words_induction with
  | spaces n =>
    rw [← List.append_nil (List.replicate n _), words_spaces, words_nil]
    simp
  | last n word hspace hne =>
    have hpos : 0 < word.length := List.length_pos_iff.mpr hne
    rw [words_spaces, words_word hspace hne, List.length_singleton, List.length_append]
    omega
  | more n word rest hspace hne ih =>
    have hpos : 0 < word.length := List.length_pos_iff.mpr hne
    rw [words_spaces, words_word_space hspace hne]
    simp only [List.length_append, List.length_cons]
    omega

/-- The strings that `execv` gets for a command. -/
def argStrings (text : List Byte) : List (List Byte) :=
  (ascii "./" ++ (text.splitOn 0x20#8).headD []) :: (text.splitOn 0x20#8).tail.filter (· ≠ [])

/-- The beginning of the buffer is the name behind `./`. -/
theorem spells_program (hnul : 0#8 ∉ word) (hlen : word.length < 1024) (hdot : buf 0 = 0x2E#8)
    (hslash : buf 1 = 0x2F#8) (hword : ∀ j, (hj : j < word.length) → buf (2 + j) = word[j])
    (hend : buf (2 + word.length) = 0#8) : Spells buf (ascii "./" ++ word) := by
  have hprefix : ascii "./" = [0x2E#8, 0x2F#8] := by decide
  have hcount : (ascii "./" ++ word).length = 2 + word.length := by
    rw [List.length_append, hprefix]
    rfl
  apply spells_of_bytes
  · rw [List.mem_append, hprefix]
    exact not_or.mpr ⟨by decide, hnul⟩
  · omega
  · intro j hj
    match j with
    | 0 => exact hdot
    | 1 => exact hslash
    | j + 2 =>
      have hlt : j < word.length := by omega
      have hb := hword j hlt
      rwa [Nat.add_comm] at hb
  · rwa [hcount]

/-- What is in `buf` when the command has been copied. -/
theorem spells_copied {command buf₀ stack : Buffer} (h : Spells command text)
    (hlen : text.length ≤ 1023)
    (hbuf₀ : buf₀ = Buffer.splice (Function.update (Function.update stack 0 0x2E#8) 1 0x2F#8) 2
      command (text.length + 1)) :
    buf₀ 0 = 0x2E#8 ∧ buf₀ 1 = 0x2F#8 ∧ Spells (fun j => buf₀ (2 + j)) text ∧
      ∀ a, 1026 ≤ a → buf₀ a = stack a := by
  subst hbuf₀
  refine ⟨rfl, rfl, ?_, fun a ha => ?_⟩
  · apply spells_of_bytes h.nul_notMem (by omega)
    · intro j hj
      rw [Buffer.splice_of_lt _ _ _ _ (by omega)]
      exact h.eq_getElem hj
    · rw [Buffer.splice_of_lt _ _ _ _ (Nat.lt_succ_self _)]
      exact h.eq_nul
  · rw [Buffer.splice, if_neg (by omega), Function.update_of_ne (by omega),
      Function.update_of_ne (by omega)]

/-- The strings of `execv` are the words of the command, and the stores are inside of `buf`. -/
theorem splitCommand_eq {command : Buffer} (h : Spells command text) (hnewline : 0x0A#8 ∉ text)
    (hlen : text.length ≤ 1023) (stack : Buffer) :
    ∃ buf args, splitCommand command stack = some (.inr (buf, args)) ∧
      PointsTo buf 0 1025 args (argStrings text) ∧ ∀ a, 1026 ≤ a → buf a = stack a := by
  have hstrlen : ece391Strlen command = some text.length := h.1
  set buf₀ := Buffer.splice (Function.update (Function.update stack 0 0x2E#8) 1 0x2F#8) 2 command
    (text.length + 1) with hbuf₀
  obtain ⟨hdot, hslash, hspells, hstack⟩ := spells_copied h hlen hbuf₀
  simp only [splitCommand, hstrlen, Option.bind_eq_bind, Option.bind_some, if_neg (not_lt.mpr hlen)]
  rw [← hbuf₀]
  by_cases hmem : 0x20#8 ∈ text
  · -- the space behind the name becomes a NUL, and the rest is split
    obtain ⟨name, rest, rfl, hspace⟩ := List.eq_append_cons_of_mem hmem
    have hcount : (name ++ 0x20#8 :: rest).length = name.length + 1 + rest.length := by
      simp only [List.length_append, List.length_cons]
      omega
    have hline : 0x0A#8 ∉ name := fun hmem => hnewline (List.mem_append_left _ hmem)
    have hlater : 0x0A#8 ∉ rest := fun hmem =>
      hnewline (List.mem_append_right _ (List.mem_cons_of_mem _ hmem))
    have hword := scan_word hspells hspace hline (by simp)
    have hbehind := spells_behind hspells
    have hblank : buf₀ (2 + name.length) = 0x20#8 := hbehind.eq_getElem (j := 0) (by simp)
    set buf₁ := Function.update buf₀ (2 + name.length) 0#8 with hbuf₁
    have hother : ∀ a, a ≠ 2 + name.length → buf₁ a = buf₀ a := fun a ha =>
      Function.update_of_ne ha _ _
    have hrest : Spells (fun j => buf₁ (2 + name.length + 1 + j)) rest := by
      have hsame : ∀ j, buf₁ (2 + name.length + 1 + j) = buf₀ (2 + name.length + 1 + j) :=
        fun j => hother _ (by omega)
      simp only [hsame]
      exact @spells_behind [0x20#8] _ _ _ hbehind
    have hrounds : rest.length + 1 < 1024 := by omega
    obtain ⟨buf', offs, hloop, hpoints, hframe⟩ := splitLoop_eq hrest hlater hrounds [0]
    have hfirst : ∀ a, a < 2 + name.length + 1 → buf' a = buf₁ a := fun a ha =>
      hframe a (Or.inl ha)
    have hstrings : argStrings (name ++ 0x20#8 :: rest) = (ascii "./" ++ name) :: words rest := by
      rw [argStrings, List.splitOn_append_cons_self_of_not_mem hspace]
      rfl
    refine ⟨buf', 0 :: offs, ?_, ?_, fun a ha => ?_⟩
    · simp only [hword, hblank, Option.bind_some]
      rw [if_pos (by decide), ← hbuf₁, hloop]
      rfl
    · rw [hstrings]
      refine .cons ⟨?_, le_rfl, ?_⟩ (hpoints.mono (Nat.zero_le _) (by omega))
      · simp only [Nat.zero_add]
        apply spells_program
        · exact fun hmem => h.nul_notMem (List.mem_append_left _ hmem)
        · omega
        · rw [hfirst 0 (by omega), hother 0 (by omega), hdot]
        · rw [hfirst 1 (by omega), hother 1 (by omega), hslash]
        · intro j hj
          rw [hfirst _ (by omega), hother _ (by omega)]
          have hb := hspells.eq_getElem (j := j) (by omega)
          rwa [List.getElem_append_left hj] at hb
        · rw [hfirst _ (by omega), hbuf₁, Function.update_self]
      · rw [List.length_append]
        have htwo : (ascii "./").length = 2 := by decide
        omega
    · rw [hframe a (Or.inr (by omega)), hother a (by omega), hstack a ha]
  · -- the command is a name
    have hspells' : Spells (fun j => buf₀ (2 + j)) (text ++ []) := by rwa [List.append_nil]
    have hword := scan_word hspells' hmem hnewline (by simp)
    have hnul : buf₀ (2 + text.length) = 0#8 := hspells.eq_nul
    have hstrings : argStrings text = [ascii "./" ++ text] := by
      rw [argStrings, List.splitOn_eq_singleton hmem]
      rfl
    refine ⟨buf₀, [0], ?_, ?_, hstack⟩
    · simp only [hword, hnul, Option.bind_some]
      rfl
    · rw [hstrings]
      refine .cons ⟨?_, le_rfl, ?_⟩ .nil
      · simp only [Nat.zero_add]
        exact spells_program h.nul_notMem (by omega) hdot hslash
          (fun j hj => hspells.eq_getElem hj) hnul
      · rw [List.length_append]
        have htwo : (ascii "./").length = 2 := by decide
        omega

/-- Under Linux, a command runs with its words, the first one behind `./`. They are inside of `buf`,
of which no byte behind the end is stored, and `args` has room for them and the `NULL`. A command of
more than 1023 characters is refused. -/
theorem ece391Execute_splits {command : Buffer} (h : Spells command text) (hnewline : 0x0A#8 ∉ text)
    (execv : Buffer → List ℕ → ChildEnd) (stack : Buffer) :
    (1023 < text.length → ece391Execute execv command stack = some (-1#32)) ∧
    (text.length ≤ 1023 → ∃ buf args,
      ece391Execute execv command stack = some (childValue (execv buf args)) ∧
      PointsTo buf 0 1025 args (argStrings text) ∧ args.length < 1024 ∧
      ∀ a, 1026 ≤ a → buf a = stack a) := by
  have hstrlen : ece391Strlen command = some text.length := h.1
  constructor
  · intro hlong
    rw [ece391Execute, splitCommand, hstrlen]
    simp only [Option.bind_eq_bind, Option.bind_some, if_pos hlong]
    rfl
  · intro hlen
    obtain ⟨buf, args, hsplit, hpoints, hstack⟩ := splitCommand_eq h hnewline hlen stack
    refine ⟨buf, args, by rw [ece391Execute, hsplit]; rfl, hpoints, ?_, hstack⟩
    -- every word but the first has a space before it
    have hcount : args.length ≤ (words text).length + 1 := by
      rw [hpoints.length_eq, argStrings, List.length_cons, words]
      exact Nat.succ_le_succ ((List.tail_sublist _).filter _).length_le
    have hhalf := length_words_le text
    omega

end

/-- Two spaces in a command do not make a string. -/
theorem ece391Execute_splits_sample : ∃ buf args,
    ece391Execute (fun _ _ => .exited 7#8) (cString "cat  a b" fun _ => 0#8) (fun _ => 0#8) =
        some 7#32 ∧
      PointsTo buf 0 1025 args [ascii "./cat", ascii "a", ascii "b"] := by
  have hspells : Spells (cString "cat  a b" fun _ => 0#8) (ascii "cat  a b") :=
    spells_cString "cat  a b" (by decide) (by decide) _
  have hnewline : 0x0A#8 ∉ ascii "cat  a b" := by decide
  have hlen : (ascii "cat  a b").length ≤ 1023 := by decide
  have hstrings : argStrings (ascii "cat  a b") = [ascii "./cat", ascii "a", ascii "b"] := by
    decide +kernel
  obtain ⟨buf, args, hvalue, hpoints, -⟩ :=
    (ece391Execute_splits hspells hnewline (fun _ _ => .exited 7#8) fun _ => 0#8).2 hlen
  rw [hstrings] at hpoints
  exact ⟨buf, args, hvalue, hpoints⟩

/-! ## `getargs` -/

section

variable {s : Buffer} {argv : List Buffer} {pos len : ℕ} {nbytes : ℤ}

theorem joined_singleton (word : List Byte) : joined [word] = word := List.intercalate_singleton

theorem joined_cons (word : List Byte) (hne : ws ≠ []) :
    joined (word :: ws) = word ++ 0x20#8 :: joined ws := by
  rw [joined, List.intercalate_cons_of_ne_nil hne, List.append_assoc, List.singleton_append, joined]

theorem length_joined_cons (word : List Byte) (hne : ws ≠ []) :
    (joined (word :: ws)).length = word.length + 1 + (joined ws).length := by
  rw [joined_cons word hne, List.length_append, List.length_cons]
  omega

theorem length_le_joined (word : List Byte) (ws : List (List Byte)) :
    word.length ≤ (joined (word :: ws)).length := by
  cases ws with
  | nil => rw [joined_singleton]
  | cons w ws =>
    rw [length_joined_cons word (List.cons_ne_nil w ws)]
    omega

theorem replay_strcpyStores (buf s : Buffer) (dst len : ℕ) :
    buf.replay (strcpyStores dst s len) = Buffer.splice buf dst s (len + 1) := by
  rw [strcpyStores]
  induction len + 1 with
  | zero => exact (Buffer.splice_zero _ _ _).symm
  | succ n ih =>
    rw [List.range_succ, List.map_append, Buffer.replay_append, ih]
    exact Buffer.splice_succ _ _ _ _

/-- The stores of a copy that a bound leaves out. -/
theorem exists_strcpyStores_ge {bound : ℤ} :
    (∃ st ∈ strcpyStores pos s len, bound ≤ st.1) ↔ bound ≤ pos + len := by
  rw [strcpyStores]
  constructor
  · rintro ⟨st, hmem, hle⟩
    obtain ⟨j, hj, rfl⟩ := List.mem_map.mp hmem
    have hlt := List.mem_range.mp hj
    push_cast at hle
    omega
  · intro hle
    refine ⟨_, List.mem_map.mpr ⟨len, List.mem_range.mpr (Nat.lt_succ_self len), rfl⟩, ?_⟩
    push_cast
    exact hle

/-- The loop at an argument. -/
theorem getargsLoop_cons (h : Spells s word) (hlen : word.length < 2147483648) :
    getargsLoop (s :: argv) pos nbytes =
      if nbytes < word.length then some (-1#32, [])
      else if nbytes = word.length then some (-1#32, strcpyStores pos s word.length)
      else if argv = [] then
        some (0#32, strcpyStores pos s word.length ++ [(pos + word.length, 0#8)])
      else (getargsLoop argv (pos + word.length + 1) (nbytes - word.length - 1)).map
        fun (value, later) =>
          (value, strcpyStores pos s word.length ++ (pos + word.length, 0x20#8) :: later) := by
  have hstrlen : ece391Strlen s = some word.length := h.1
  simp only [getargsLoop, hstrlen, Option.bind_eq_bind, Option.bind_some,
    FsImage.toInt_ofNat_of_lt hlen, Int.toNat_natCast]
  by_cases hroom : nbytes < word.length
  · rw [if_pos hroom, if_pos hroom]
    rfl
  · rw [if_neg hroom, if_neg hroom]
    by_cases hfull : nbytes = word.length
    · rw [if_pos hfull, hfull]
      split_ifs <;> first | rfl | omega
    · rw [if_neg hfull]
      have hleft : ¬ nbytes - word.length < 1 := by omega
      rw [if_neg hleft, if_neg hleft]
      split_ifs
      · rfl
      · cases getargsLoop argv (pos + word.length + 1) (nbytes - word.length - 1) <;> rfl

/-- A word, a space and another string, one behind the other. -/
theorem splice_joined (h : Spells s word) (buf : Buffer) (pos : ℕ) (text : List Byte) :
    Buffer.splice (Function.update (Buffer.splice buf pos s (word.length + 1)) (pos + word.length)
        0x20#8) (pos + word.length + 1) (Buffer.ofList text fun _ => 0#8) (text.length + 1) =
      Buffer.splice buf pos (Buffer.ofList (word ++ 0x20#8 :: text) fun _ => 0#8)
        (word.length + 1 + text.length + 1) := by
  ext a : 1
  rcases Nat.lt_or_ge a pos with hlow | hle
  · rw [Buffer.splice, if_neg (by omega), Function.update_of_ne (by omega), Buffer.splice,
      if_neg (by omega), Buffer.splice, if_neg (by omega)]
  obtain ⟨j, rfl⟩ := Nat.exists_eq_add_of_le hle
  rcases lt_trichotomy j word.length with hlt | rfl | hgt
  · -- in the word
    rw [Buffer.splice, if_neg (by omega), Function.update_of_ne (by omega),
      Buffer.splice_of_lt _ _ _ _ (by omega), Buffer.splice_of_lt _ _ _ _ (by omega),
      Buffer.ofList_append, Buffer.ofList_of_lt _ _ hlt]
    exact h.eq_getElem hlt
  · rw [Buffer.splice, if_neg (by omega), Function.update_self,
      Buffer.splice_of_lt _ _ _ _ (by omega), Buffer.ofList_append, Buffer.ofList_length,
      Buffer.ofList_cons_zero]
  · -- behind the space
    obtain ⟨i, rfl⟩ := Nat.exists_eq_add_of_lt hgt
    rcases Nat.lt_or_ge i (text.length + 1) with hin | hout
    · have hindex : pos + (word.length + i + 1) = pos + word.length + 1 + i := by omega
      have hbehind : word.length + i + 1 = word.length + (i + 1) := by omega
      rw [Buffer.splice_of_lt _ _ _ _ (by omega : word.length + i + 1 < _), hbehind,
        Buffer.ofList_append, Buffer.ofList_length_add, Buffer.ofList_cons_succ, ← hbehind, hindex,
        Buffer.splice_of_lt _ _ _ _ hin]
    · rw [Buffer.splice, if_neg (by omega), Function.update_of_ne (by omega), Buffer.splice,
        if_neg (by omega), Buffer.splice, if_neg (by omega)]

/-- Some of the first strings, with the spaces between them, are this many characters. -/
def FillsExactly (ws : List (List Byte)) (count : ℤ) : Prop :=
  ∃ n, 0 < n ∧ n ≤ ws.length ∧ ((joined (ws.take n)).length : ℤ) = count

theorem not_fillsExactly_nil (count : ℤ) : ¬ FillsExactly [] count := by
  rintro ⟨n, hn, hle, -⟩
  exact absurd (hn.trans_le hle) (lt_irrefl 0)

/-- It is the first string, or some of the others behind it and a space. -/
theorem fillsExactly_cons (word : List Byte) (ws : List (List Byte)) (count : ℤ) :
    FillsExactly (word :: ws) count ↔
      count = word.length ∨ FillsExactly ws (count - word.length - 1) := by
  have hmore : ∀ n, 0 < n → n ≤ ws.length →
      (joined (word :: ws.take n)).length = word.length + 1 + (joined (ws.take n)).length := by
    intro n hn hle
    refine length_joined_cons word fun hnil => ?_
    rcases List.take_eq_nil_iff.mp hnil with rfl | rfl
    · exact absurd hn (lt_irrefl 0)
    · exact absurd (hn.trans_le hle) (lt_irrefl 0)
  constructor
  · rintro ⟨n, hn, hle, hcount⟩
    obtain ⟨m, rfl⟩ : ∃ m, n = m + 1 := ⟨n - 1, by omega⟩
    rw [List.take_succ_cons] at hcount
    rcases Nat.eq_zero_or_pos m with rfl | hm
    · rw [List.take_zero, joined_singleton] at hcount
      exact Or.inl hcount.symm
    · have hle' : m ≤ ws.length := Nat.succ_le_succ_iff.mp hle
      rw [hmore m hm hle'] at hcount
      push_cast at hcount
      exact Or.inr ⟨m, hm, hle', by omega⟩
  · rintro (rfl | ⟨n, hn, hle, hcount⟩)
    · refine ⟨1, one_pos, Nat.succ_le_succ (Nat.zero_le _), ?_⟩
      rw [List.take_succ_cons, List.take_zero, joined_singleton]
    · refine ⟨n + 1, Nat.succ_pos n, Nat.succ_le_succ hle, ?_⟩
      rw [List.take_succ_cons, hmore n hn hle]
      push_cast
      omega

/-- The loop over the arguments, of which there may be none. -/
theorem getargsLoop_spec (h : List.Forall₂ Spells argv ws)
    (hlen : (joined ws).length < 2147483648) (pos : ℕ) (nbytes : ℤ) :
    ∃ stores, getargsLoop argv pos nbytes =
        some (if (joined ws).length < nbytes then 0#32 else -1#32, stores) ∧
      ((joined ws).length < nbytes → ∀ buf : Buffer, buf.replay stores =
        Buffer.splice buf pos (Buffer.ofList (joined ws) fun _ => 0#8) ((joined ws).length + 1)) ∧
      ((∃ st ∈ stores, pos + nbytes ≤ (st.1 : ℤ)) ↔ FillsExactly ws nbytes) := by
  induction h generalizing pos nbytes with
  | nil =>
    have hnone := not_fillsExactly_nil nbytes
    have hzero : (joined []).length = 0 := rfl
    rw [hzero, getargsLoop]
    by_cases hroom : nbytes < 1
    · rw [if_pos hroom, if_neg (by push_cast; omega)]
      exact ⟨[], rfl, fun hlt => by push_cast at hlt; omega, iff_of_false (by simp) hnone⟩
    · rw [if_neg hroom, if_pos (by push_cast; omega)]
      refine ⟨_, rfl, fun _ buf => ?_, iff_of_false ?_ hnone⟩
      · have hsucc := Buffer.splice_succ buf (Buffer.ofList [] fun _ => 0#8) 0 pos
        rw [Buffer.splice_zero] at hsucc
        exact hsucc
      · rintro ⟨st, hmem, hst⟩
        rw [List.mem_singleton.mp hmem] at hst
        push_cast at hst
        omega
  | @cons s w argv ws hs hrest ih =>
    have hle := length_le_joined w ws
    have hnil : argv = [] ↔ ws = [] := by
      rw [← List.length_eq_zero_iff, ← List.length_eq_zero_iff, hrest.length_eq]
    rw [getargsLoop_cons hs (hle.trans_lt hlen)]
    by_cases hroom : nbytes < w.length
    · -- the argument does not fit
      rw [if_pos hroom, if_neg (by omega)]
      refine ⟨[], rfl, fun hlt => by omega, iff_of_false (by simp) ?_⟩
      rw [fillsExactly_cons]
      rintro (hfull | ⟨n, -, -, hfull⟩) <;> omega
    rw [if_neg hroom]
    by_cases hfull : nbytes = w.length
    · -- its NUL does not fit
      rw [if_pos hfull, if_neg (by omega)]
      exact ⟨_, rfl, fun hlt => by omega, iff_of_true (exists_strcpyStores_ge.mpr (by omega))
        ((fillsExactly_cons w ws nbytes).mpr (Or.inl hfull))⟩
    rw [if_neg hfull, fillsExactly_cons, or_iff_right hfull]
    have hcopied : ¬ ∃ st ∈ strcpyStores pos s w.length, pos + nbytes ≤ (st.1 : ℤ) := by
      rw [exists_strcpyStores_ge]
      omega
    by_cases hlast : ws = []
    · subst hlast
      rw [if_pos (hnil.mpr rfl), joined_singleton, if_pos (by omega)]
      refine ⟨_, rfl, fun _ buf => ?_, iff_of_false ?_ (not_fillsExactly_nil _)⟩
      · rw [Buffer.replay_append, replay_strcpyStores]
        show Function.update _ _ _ = _
        rw [Function.update_eq_self_iff.mpr]
        · refine Buffer.splice_congr _ _ _ _ fun j hj => ?_
          rcases Nat.lt_succ_iff_lt_or_eq.mp hj with hlt | rfl
          · rw [Buffer.ofList_of_lt _ _ hlt, hs.eq_getElem hlt]
          · rw [Buffer.ofList_length, hs.eq_nul]
        · rw [Buffer.splice_of_lt _ _ _ _ (Nat.lt_succ_self _), hs.eq_nul]
      · rintro ⟨st, hmem, hst⟩
        rcases List.mem_append.mp hmem with hmem | hmem
        · exact hcopied ⟨st, hmem, hst⟩
        · rw [List.mem_singleton.mp hmem] at hst
          push_cast at hst
          omega
    · -- a space, and the other arguments
      have hcount := length_joined_cons w hlast
      rw [hcount] at hlen
      obtain ⟨stores, hloop, hreplay, hover⟩ :=
        ih (by omega) (pos + w.length + 1) (nbytes - w.length - 1)
      have hfits : ((joined ws).length : ℤ) < nbytes - w.length - 1 ↔
          ((joined (w :: ws)).length : ℤ) < nbytes := by
        rw [hcount]
        push_cast
        omega
      rw [if_neg (mt hnil.mp hlast), hloop, Option.map_some, if_congr hfits rfl rfl]
      refine ⟨_, rfl, fun hlt buf => ?_, ?_⟩
      · have hstores := hreplay (hfits.mpr hlt)
        rw [Buffer.replay_append, replay_strcpyStores]
        show Buffer.replay (Function.update _ _ _) stores = _
        rw [hstores, splice_joined hs, hcount, joined_cons w hlast]
      · have hbound :
            ((pos + w.length + 1 : ℕ) : ℤ) + (nbytes - w.length - 1) = pos + nbytes := by
          push_cast
          omega
        rw [← hover, hbound]
        constructor
        · rintro ⟨st, hmem, hst⟩
          rcases List.mem_append.mp hmem with hmem | hmem
          · exact absurd ⟨st, hmem, hst⟩ hcopied
          rcases List.mem_cons.mp hmem with rfl | hmem
          · push_cast at hst
            omega
          · exact ⟨st, hmem, hst⟩
        · rintro ⟨st, hmem, hst⟩
          exact ⟨st, List.mem_append_right _ (List.mem_cons_of_mem _ hmem), hst⟩

/-- `getargs` gives the arguments with a space between any two, if they fit with their NUL, and -1
otherwise. It stores a byte behind its `nbytes` exactly when some of the first arguments, with the
spaces between them, are `nbytes` characters. -/
theorem getargs_spec (h : List.Forall₂ Spells argv ws) (hlen : (joined ws).length < 2147483648)
    (program : Buffer) (nbytes : Word) :
    ∃ stores, ece391Getargs (program :: argv) nbytes =
        some (if (joined ws).length < nbytes.toInt then 0#32 else -1#32, stores) ∧
      ((joined ws).length < nbytes.toInt → ∀ buf : Buffer, buf.replay stores =
        buf.overwrite (Buffer.ofList (joined ws) fun _ => 0#8) ((joined ws).length + 1)) ∧
      ((∃ st ∈ stores, nbytes.toInt ≤ (st.1 : ℤ)) ↔
        ∃ n, 0 < n ∧ n ≤ ws.length ∧ ((joined (ws.take n)).length : ℤ) = nbytes.toInt) := by
  obtain ⟨stores, hloop, hreplay, hover⟩ := getargsLoop_spec h hlen 0 nbytes.toInt
  refine ⟨stores, hloop, fun hlt buf => ?_, ?_⟩
  · rw [hreplay hlt, Buffer.splice_zero_start]
  · rw [Nat.cast_zero, zero_add] at hover
    exact hover

end

/-- Arguments of four characters do not fit into four bytes, and the NUL is stored behind them. -/
theorem getargs_spec_sample : ∃ stores,
    ece391Getargs [fun _ => 0#8, cString "a" fun _ => 0#8, cString "bc" fun _ => 0#8] 4#32 =
        some (-1#32, stores) ∧
      ∃ st ∈ stores, (4 : ℤ) ≤ st.1 := by
  have hspells : List.Forall₂ Spells [cString "a" fun _ => 0#8, cString "bc" fun _ => 0#8]
      [ascii "a", ascii "bc"] :=
    .cons (spells_cString "a" (by decide) (by decide) _)
      (.cons (spells_cString "bc" (by decide) (by decide) _) .nil)
  have hlen : (joined [ascii "a", ascii "bc"]).length < 2147483648 := by decide
  obtain ⟨stores, hcall, -, hover⟩ := getargs_spec hspells hlen (fun _ => 0#8) 4#32
  exact ⟨stores, hcall, hover.mpr ⟨2, by decide, by decide, by decide⟩⟩

/-! ## Reading the directory -/

section

variable {name : Buffer} {nbytes : ℤ} {copied left : ℕ}
  {read : Word → Word → Word × List (ℕ × Byte)} {fd : Word}

/-- The stores of the bytes from an index on, up to a count. -/
def storesFrom (data : Buffer) (copied count : ℕ) : List (ℕ × Byte) :=
  (List.range' copied (count - copied)).map fun j => (j, data j)

theorem storesFrom_cons (data : Buffer) {count : ℕ} (hlt : copied < count) :
    storesFrom data copied count = (copied, data copied) :: storesFrom data (copied + 1) count := by
  have hcount : count - copied = count - (copied + 1) + 1 := by omega
  rw [storesFrom, hcount, List.range'_succ, List.map_cons, storesFrom]

theorem storesFrom_self (data : Buffer) (count : ℕ) : storesFrom data count count = [] := by
  rw [storesFrom, Nat.sub_self]
  rfl

theorem storesFrom_zero (data : Buffer) (count : ℕ) :
    storesFrom data 0 count = Buffer.copyStores data count := by
  rw [storesFrom, Nat.sub_zero, Buffer.copyStores, List.range_eq_range']

/-- How many bytes a read of an entry stores: `nbytes` is a bound only if it is positive. -/
def entryCount (nbytes : ℤ) (length : ℕ) : ℕ :=
  if 0 < nbytes then min nbytes.toNat 32 else min length 32

theorem entryCount_cases (nbytes : ℤ) (length : ℕ) :
    0 < nbytes ∧ entryCount nbytes length = min nbytes.toNat 32 ∨
      nbytes ≤ 0 ∧ entryCount nbytes length = min length 32 := by
  rw [entryCount]
  split <;> omega

/-- Behind the name are NULs. -/
theorem padName_eq (hname : text.length ≤ copied) (hleft : copied + left = 32)
    (hle : copied ≤ entryCount nbytes text.length) :
    padName nbytes left copied = (entryCount nbytes text.length,
      storesFrom (Buffer.ofList text fun _ => 0#8) copied (entryCount nbytes text.length)) := by
  have hcases := entryCount_cases nbytes text.length
  induction left generalizing copied with
  | zero =>
    have hcount : entryCount nbytes text.length = copied := by omega
    rw [padName, hcount, storesFrom_self]
  | succ left ih =>
    rw [padName]
    by_cases hlt : (copied : ℤ) < nbytes
    · have hnul : Buffer.ofList text (fun _ => 0#8) copied = 0#8 := Buffer.ofList_of_le _ _ hname
      rw [if_pos hlt, ih (by omega) (by omega) (by omega),
        storesFrom_cons _ (by omega : copied < _), hnul]
    · have hcount : entryCount nbytes text.length = copied := by omega
      rw [if_neg hlt, hcount, storesFrom_self]

/-- The name, and NULs behind it. -/
theorem copyName_eq (h : Spells name text) (hname : copied ≤ text.length)
    (hleft : copied + left = 32) (hlt : 0 < nbytes → (copied : ℤ) < nbytes) :
    copyName name nbytes left copied = (entryCount nbytes text.length,
      storesFrom (Buffer.ofList text fun _ => 0#8) copied (entryCount nbytes text.length)) := by
  have hcases := entryCount_cases nbytes text.length
  induction left generalizing copied with
  | zero =>
    have hcount : entryCount nbytes text.length = copied := by omega
    rw [copyName, hcount, storesFrom_self]
  | succ left ih =>
    rw [copyName]
    rcases Nat.eq_or_lt_of_le hname with rfl | hin
    · -- the name has ended
      rw [if_pos h.eq_nul]
      exact padName_eq le_rfl hleft (by omega)
    · have hchar : name copied = text[copied] := h.eq_getElem hin
      have hne : name copied ≠ 0#8 := fun hnul =>
        h.nul_notMem (hnul ▸ hchar ▸ List.getElem_mem hin)
      have hdata : Buffer.ofList text (fun _ => 0#8) copied = name copied := by
        rw [hchar, Buffer.ofList_of_lt _ _ hin]
      rw [if_neg hne, storesFrom_cons _ (by omega : copied < _), hdata]
      by_cases hfull : (copied + 1 : ℤ) = nbytes
      · have hcount : entryCount nbytes text.length = copied + 1 := by omega
        rw [if_pos hfull, hcount, storesFrom_self]
      · rw [if_neg hfull, ih (by omega) (by omega) (by omega)]

/-- What a read of an entry gives. -/
def entryRead (text : List Byte) (nbytes : Word) : Word × List (ℕ × Byte) :=
  let count := entryCount nbytes.toInt text.length
  (BitVec.ofNat 32 count, Buffer.copyStores (Buffer.ofList text fun _ => 0#8) count)

theorem read_entry (h : Spells name text) (entries : List Buffer) (nbytes : Word) :
    ece391Read read (some ⟨fd, name :: entries⟩) fd nbytes =
      (entryRead text nbytes, some ⟨fd, entries⟩) := by
  have hcopy : copyName name nbytes.toInt 32 0 = _ :=
    copyName_eq h (Nat.zero_le _) (Nat.zero_add 32) id
  rw [storesFrom_zero] at hcopy
  simp only [ece391Read, ne_eq, not_true, if_false, hcopy, entryRead]

theorem reads_end (sizes : List Word) :
    reads read fd (some ⟨fd, []⟩) sizes = List.replicate sizes.length (0#32, []) := by
  induction sizes with
  | nil => rfl
  | cons nbytes sizes ih =>
    simp only [reads, ece391Read, ne_eq, not_true, if_false, ih, List.length_cons,
      List.replicate_succ]

/-- The reads of the directory give its entries, each in as many bytes as there may be and at most
32, with NULs behind the name. Behind the last one they give 0. -/
theorem reads_entries {entries : List Buffer} {names : List (List Byte)}
    (h : List.Forall₂ Spells entries names) (sizes : List Word) :
    reads read fd (some ⟨fd, entries⟩) sizes = List.zipWith entryRead names sizes ++
      List.replicate (sizes.length - names.length) (0#32, []) := by
  induction h generalizing sizes with
  | nil => rw [reads_end, List.zipWith_nil_left, List.nil_append, List.length_nil, Nat.sub_zero]
  | cons hname _ ih =>
    cases sizes with
    | nil =>
      rw [reads, List.zipWith_nil_right, List.length_nil, Nat.zero_sub]
      rfl
    | cons nbytes sizes =>
      simp only [reads, read_entry hname, ih, List.zipWith_cons_cons, List.cons_append,
        List.length_cons, Nat.add_sub_add_right]

/-- A read of an entry stores a byte behind those that it may use exactly if there are none, and the
name has one. -/
theorem read_overflows_iff (h : Spells name text) (entries : List Buffer) (nbytes : Word) :
    (∃ st ∈ (ece391Read read (some ⟨fd, name :: entries⟩) fd nbytes).1.2,
        nbytes.toInt ≤ st.1) ↔ nbytes.toInt ≤ 0 ∧ text ≠ [] := by
  have hinside : (∀ st ∈ (entryRead text nbytes).2, st.1 < nbytes.toInt.toNat) ↔
      entryCount nbytes.toInt text.length ≤ nbytes.toInt.toNat := Buffer.forall_copyStores_lt _ _
  have hlen : text ≠ [] ↔ 0 < text.length := List.length_pos_iff.symm
  have hcases := entryCount_cases nbytes.toInt text.length
  rw [read_entry h, hlen]
  constructor
  · rintro ⟨st, hmem, hst⟩
    have hmore : ¬entryCount nbytes.toInt text.length ≤ nbytes.toInt.toNat := fun hle =>
      absurd (hinside.mpr hle st hmem) (by omega)
    omega
  · rintro ⟨hzero, hpos⟩
    have hmem : (0, Buffer.ofList text (fun _ => 0#8) 0) ∈ (entryRead text nbytes).2 :=
      List.mem_map_of_mem (List.mem_range.mpr (by omega))
    exact ⟨_, hmem, hzero⟩

end

/-- An entry is read with NULs behind its name, and then there is none. -/
theorem reads_entries_sample : reads (fun _ _ => (-1#32, [])) 7#32
      (some ⟨7#32, [cString "a" fun _ => 0#8]⟩) [3#32, 3#32] =
    [(3#32, [(0, 0x61#8), (1, 0#8), (2, 0#8)]), (0#32, [])] := by
  have hspells : List.Forall₂ Spells [cString "a" fun _ => 0#8] [ascii "a"] :=
    .cons (spells_cString "a" (by decide) (by decide) _) .nil
  rw [reads_entries hspells]
  decide

/-- A read of no bytes stores the name. -/
theorem read_overflows_iff_sample :
    ∃ st ∈ (ece391Read (fun _ _ => (-1#32, [])) (some ⟨7#32, [cString "a" fun _ => 0#8]⟩) 7#32
        0#32).1.2, (0#32 : Word).toInt ≤ st.1 :=
  (read_overflows_iff (spells_cString "a" (by decide) (by decide) _) [] 0#32).mpr
    ⟨by decide, by decide⟩

/-! ## The same argument -/

/-- A program of the emulation gets the argument: with room for it and its NUL, `getargs` succeeds
and leaves exactly these bytes at the start of the buffer. -/
def GetsArgs (argv : List Buffer) (text : List Byte) : Prop :=
  ∀ (buf : Buffer) (nbytes : Word), (text.length + 1 : ℤ) ≤ nbytes.toInt →
    ∃ stores, ece391Getargs argv nbytes = some (0#32, stores) ∧
      (buf.replay stores).bytesOf 0 (text.length + 1) = text ++ [0#8]

/-- The program is started with the strings that `execv` has been given. -/
def StartedWith (argv : List Buffer) (buf : Buffer) (args : List ℕ) : Prop :=
  List.Forall₂ (fun s o => ∀ text, Spells (fun j => buf (o + j)) text → Spells s text) argv args

section

variable {argv : List Buffer} {s program : Buffer}

theorem length_joined_words_le (text : List Byte) : (joined (words text)).length ≤ text.length := by
  induction text using words_induction with
  | spaces n =>
    rw [← List.append_nil (List.replicate n _), words_spaces, words_nil]
    exact Nat.zero_le _
  | last n word hspace hne =>
    rw [words_spaces, words_word hspace hne, joined_singleton, List.length_append]
    omega
  | more n word rest hspace hne ih =>
    rw [words_spaces, words_word_space hspace hne]
    by_cases hlast : words rest = []
    · rw [hlast, joined_singleton]
      simp only [List.length_append, List.length_cons]
      omega
    · rw [length_joined_cons word hlast]
      simp only [List.length_append, List.length_cons]
      omega

/-- A string and its NUL. -/
theorem spells_iff_bytesOf (hnul : 0#8 ∉ text) (hlen : text.length < 4294967296) :
    Spells s text ↔ s.bytesOf 0 (text.length + 1) = text ++ [0#8] := by
  constructor
  · intro h
    rw [Buffer.bytesOf_add, h.2, Nat.zero_add, Buffer.bytesOf_succ, Buffer.bytesOf_zero, h.eq_nul]
  · intro h
    have hcount : (text ++ [0#8]).length = text.length + 1 := by simp
    rw [← hcount, Buffer.bytesOf_eq_iff] at h
    apply spells_of_bytes hnul hlen
    · intro j hj
      have hb := h j (by omega)
      rwa [Nat.zero_add, List.getElem_append_left hj] at hb
    · have hb := h text.length (by omega)
      rw [Nat.zero_add, List.getElem_append_right le_rfl] at hb
      simpa using hb

/-- There is no NUL in joined strings. -/
theorem nul_notMem_joined (h : List.Forall₂ Spells argv ws) : 0#8 ∉ joined ws := by
  induction h with
  | nil => exact List.not_mem_nil
  | @cons s w argv ws hs _ ih =>
    by_cases hlast : ws = []
    · rw [hlast, joined_singleton]
      exact hs.nul_notMem
    · rw [joined_cons w hlast, List.mem_append, List.mem_cons]
      exact not_or.mpr ⟨hs.nul_notMem, not_or.mpr ⟨by decide, ih⟩⟩

/-- What the program has been started with. -/
theorem StartedWith.spells {buf : Buffer} {scan n : ℕ} {args : List ℕ}
    (hpoints : PointsTo buf scan n args ws) (h : StartedWith argv buf args) :
    List.Forall₂ Spells argv ws := by
  induction hpoints generalizing argv with
  | nil =>
    cases h
    exact .nil
  | cons hword _ ih =>
    cases h with
    | cons hsame hrest => exact .cons (hsame _ hword.1) (ih hrest)

/-- The argument that a program gets is its words with one space between any two. -/
theorem getsArgs_iff {a : List Byte} (hnul : 0#8 ∉ a) (hlen : a.length ≤ 128)
    (h : List.Forall₂ Spells argv (words a)) :
    GetsArgs (program :: argv) a ↔ joined (words a) = a := by
  have hle := length_joined_words_le a
  constructor
  · intro hget
    obtain ⟨stores, hcall, hbytes⟩ := hget (fun _ => 0#8) 1024#32 (by
      have hroom : (1024#32 : Word).toInt = 1024 := rfl
      omega)
    obtain ⟨stores', hcall', hreplay, -⟩ := getargsLoop_spec h (by omega) 0 (1024#32 : Word).toInt
    have hroom : ((joined (words a)).length : ℤ) < (1024#32 : Word).toInt := by
      have hroom : (1024#32 : Word).toInt = 1024 := rfl
      omega
    rw [if_pos hroom] at hcall'
    rw [ece391Getargs, List.tail_cons] at hcall
    cases hcall.symm.trans hcall'
    have hjoined : Spells (Buffer.replay (fun _ => 0#8) stores) (joined (words a)) := by
      rw [hreplay hroom, Buffer.splice_zero_start]
      refine spells_of_bytes (nul_notMem_joined h) (by omega) (fun j hj => ?_) ?_
      · rw [Buffer.overwrite_of_lt _ _ _ (by omega), Buffer.ofList_of_lt _ _ hj]
      · rw [Buffer.overwrite_of_lt _ _ _ (Nat.lt_succ_self _), Buffer.ofList_length]
    exact hjoined.unique ((spells_iff_bytesOf hnul (by omega)).mpr hbytes)
  · intro hjoined buf nbytes hroom
    obtain ⟨stores, hcall, hreplay, -⟩ := getargsLoop_spec h (by omega) 0 nbytes.toInt
    rw [hjoined] at hcall hreplay
    have hlt : (a.length : ℤ) < nbytes.toInt := by omega
    rw [if_pos hlt] at hcall
    refine ⟨stores, hcall, ?_⟩
    rw [hreplay hlt, Buffer.splice_zero_start, Buffer.bytesOf_overwrite _ _ _ _ le_rfl]
    exact (spells_iff_bytesOf hnul (by omega)).mp (spells_of_bytes hnul (by omega)
      (fun j hj => Buffer.ofList_of_lt _ _ hj) (Buffer.ofList_length _ _))

/-- The bytes of a command. -/
theorem spells_memory (c : CommandLine) (rest : Buffer) : Spells (c.memory rest) c.bytes := by
  have hname : 0#8 ∉ c.name := fun hmem => absurd (c.endsName_name _ hmem) (by decide)
  have hargs : ∀ a, c.args = some a → 0#8 ∉ a ∧ a.length ≤ 128 := fun a ha =>
    ⟨c.nul_args a ha, c.length_args a ha⟩
  have hlen := c.length_name
  apply spells_of_bytes
  · rw [CommandLine.bytes, List.mem_append]
    refine not_or.mpr ⟨hname, ?_⟩
    cases ha : c.args with
    | none => exact List.not_mem_nil
    | some a => exact fun hmem => (hargs a ha).1 ((List.mem_cons.mp hmem).resolve_left (by decide))
  · rw [CommandLine.bytes, List.length_append]
    cases ha : c.args with
    | none =>
      rw [Option.elim_none, List.length_nil]
      omega
    | some a =>
      have hlen' := (hargs a ha).2
      rw [Option.elim_some, List.length_cons]
      omega
  · intro j hj
    rw [CommandLine.memory, Buffer.ofList_append]
    exact Buffer.ofList_of_lt _ _ hj
  · rw [CommandLine.memory, Buffer.ofList_append, Buffer.ofList_length, Buffer.ofList_cons_zero]

/-- A command with an argument gives the program what has been typed on the kernel. Under Linux it
does so exactly when there is one space between any two words and none around them. -/
theorem sameArgs_iff {env : Env} {c : CommandLine} {a : List Byte} {rest stack : Buffer}
    {k k' : Kernel} {eip : Word}
    (hlaunch : execute env (c.memory rest) stack k = some (.userMode eip, k'))
    (hargs : c.args = some a) (hnewline : 0x0A#8 ∉ c.bytes) (stack' : Buffer) :
    Ece391.GetsArgs k' a ∧
      ∃ buf args, splitCommand (c.memory rest) stack' = some (.inr (buf, args)) ∧
        ∀ argv, StartedWith argv buf args →
          (GetsArgs argv a ↔ a = [] ∨ [] ∉ a.splitOn 0x20#8) := by
  have htext : c.text = a := by rw [CommandLine.text, hargs, Option.getD_some]
  have hkernel := (getsArgs_launched_iff hlaunch).mpr (Or.inl (by rw [hargs]; rfl))
  rw [htext] at hkernel
  refine ⟨hkernel, ?_⟩
  have hname : 0x20#8 ∉ c.name := fun hmem => absurd (c.endsName_name _ hmem) (by decide)
  have hbytes : c.bytes = c.name ++ 0x20#8 :: a := by
    rw [CommandLine.bytes, hargs, Option.elim_some]
  have hlen : c.bytes.length ≤ 1023 := by
    have hle := c.length_name
    have hle' := c.length_args a hargs
    rw [hbytes, List.length_append, List.length_cons]
    omega
  obtain ⟨buf, args, hsplit, hpoints, -⟩ :=
    splitCommand_eq (spells_memory c rest) hnewline hlen stack'
  have hstrings : argStrings c.bytes = (ascii "./" ++ c.name) :: words a := by
    rw [argStrings, hbytes, List.splitOn_append_cons_self_of_not_mem hname]
    rfl
  rw [hstrings] at hpoints
  refine ⟨buf, args, hsplit, fun argv hstarted => ?_⟩
  cases StartedWith.spells hpoints hstarted with
  | cons hprogram hothers =>
    rw [getsArgs_iff (c.nul_args a hargs) (c.length_args a hargs) hothers, joined_words_iff]

end

/-- A command with one word behind its name. -/
theorem sameArgs_iff_sample : ∃ k', Ece391.GetsArgs k' (ascii "frame0.txt") ∧
    ∃ buf args, splitCommand (shellWithFile.memory fun _ => 0#8) (fun _ => 0#8) =
        some (.inr (buf, args)) ∧
      ∀ argv, StartedWith argv buf args → GetsArgs argv (ascii "frame0.txt") := by
  obtain ⟨k, k', hlaunch⟩ := exists_launch_shellWithFile
  have hargs : shellWithFile.args = some (ascii "frame0.txt") := rfl
  have hnewline : 0x0A#8 ∉ shellWithFile.bytes := by decide +kernel
  have hsingle : [] ∉ (ascii "frame0.txt").splitOn 0x20#8 := by decide +kernel
  obtain ⟨hkernel, buf, args, hsplit, hsame⟩ :=
    sameArgs_iff hlaunch hargs hnewline fun _ => 0#8
  exact ⟨k', hkernel, buf, args, hsplit, fun argv hstarted =>
    (hsame argv hstarted).mpr (Or.inr hsingle)⟩

end Ece391.Emulate
