import Ece391Os.Lib.Memory
import Mathlib.Data.List.TakeWhile

/-!
# String functions of `lib.c`

`strlen` and `strncmp` over the memory behind their pointer arguments. The loop of `strlen` has no
bound of its own, so it returns `none` where no NUL byte follows in the address space. Characters
are signed, as `int8_t` is, so a difference of two characters is one of integers.

* `stringOf s n` is the string of at most `n` characters in a memory.
* `strncmp_eq_zero_iff`: `strncmp` finds two memories equal exactly when these strings are.
* `Spells s text` says that the whole string in a memory is `text`. Over the length of a string,
  `strncmp` tests for a prefix (`Spells.strncmp_iff`).
-/

namespace Ece391

/-- The bytes of a string literal. -/
def ascii (s : String) : List Byte := s.toList.map fun c => BitVec.ofNat 8 c.toNat

/-- The memory of a C string literal: its bytes, the NUL, and whatever follows. -/
def cString (s : String) (rest : Buffer) : Buffer := Buffer.ofList (ascii s ++ [0#8]) rest

/-- `strlen` -/
def strlen (s : Buffer) : Option ℕ := s.scan fun b => b == 0#8

/-- The loop of `strncmp` from index `i` on, with `n` characters left to compare. -/
def strncmpFrom (s1 s2 : Buffer) : ℕ → ℕ → ℤ
  | 0, _ => 0
  | n + 1, i =>
    if s1 i ≠ s2 i ∨ s1 i = 0#8 then (s1 i).toInt - (s2 i).toInt
    else strncmpFrom s1 s2 n (i + 1)

/-- `strncmp` -/
def strncmp (s1 s2 : Buffer) (n : ℕ) : ℤ := strncmpFrom s1 s2 n 0

/-- The characters before the first NUL, at most `n`. -/
def stringOf (s : Buffer) (n : ℕ) : List Byte := (s.bytesOf 0 n).takeWhile fun b => b != 0#8

theorem strlen_eq_some {s : Buffer} {m : ℕ} :
    strlen s = some m ↔ m < 4294967296 ∧ s m = 0#8 ∧ ∀ j < m, s j ≠ 0#8 := by
  simp [strlen, Buffer.scan_eq_some]

/-- The length of a text with a NUL behind it. -/
theorem strlen_text {s : Buffer} {text : List Byte} (hnul : 0#8 ∉ text)
    (hlen : text.length < 4294967296) (htext : ∀ j, (hj : j < text.length) → s j = text[j])
    (hend : s text.length = 0#8) : strlen s = some text.length := by
  refine strlen_eq_some.mpr ⟨hlen, hend, fun j hj h => ?_⟩
  rw [htext j hj] at h
  exact hnul (h ▸ List.getElem_mem hj)

/-- Two characters with the difference zero are one. -/
theorem toInt_sub_eq_zero {a b : Byte} : a.toInt - b.toInt = 0 ↔ a = b := by
  rw [sub_eq_zero, BitVec.toInt_inj]

/-- The loop from index `i` on compares the strings that begin there. -/
theorem strncmpFrom_eq_zero_iff {s1 s2 : Buffer} {n i : ℕ} :
    strncmpFrom s1 s2 n i = 0 ↔
      (s1.bytesOf i n).takeWhile (fun b => b != 0#8) =
        (s2.bytesOf i n).takeWhile fun b => b != 0#8 := by
  induction n generalizing i with
  | zero => simp [strncmpFrom]
  | succ n ih =>
    rw [strncmpFrom, Buffer.bytesOf_succ, Buffer.bytesOf_succ, List.takeWhile_cons,
      List.takeWhile_cons]
    by_cases heq : s1 i = s2 i
    · by_cases hnul : s1 i = 0#8
      · -- both strings end here
        rw [if_pos (Or.inr hnul), toInt_sub_eq_zero, ← heq, hnul]
        simp
      · -- the same character, and the loop goes on
        have hgo : ¬ (s1 i ≠ s2 i ∨ s1 i = 0#8) := fun h => h.elim (absurd heq) hnul
        rw [if_neg hgo, ih, ← heq]
        simp [hnul]
    · -- two characters, or the end of one string
      rw [if_pos (Or.inl heq), toInt_sub_eq_zero]
      refine iff_of_false heq fun hstrings => heq ?_
      by_cases h1 : s1 i = 0#8 <;> by_cases h2 : s2 i = 0#8 <;> simp [h1, h2] at hstrings
      · rw [h1, h2]
      · exact hstrings.1

/-- `strncmp` returns zero exactly for two equal strings, cut to `n` characters. -/
theorem strncmp_eq_zero_iff {s1 s2 : Buffer} {n : ℕ} :
    strncmp s1 s2 n = 0 ↔ stringOf s1 n = stringOf s2 n :=
  strncmpFrom_eq_zero_iff

/-- Where the characters before the first NUL end. -/
theorem length_takeWhile_spec (s : Buffer) (n i : ℕ) :
    let m := ((s.bytesOf i n).takeWhile fun b => b != 0#8).length
    m ≤ n ∧ (∀ j < m, s (i + j) ≠ 0#8) ∧ (m < n → s (i + m) = 0#8) := by
  induction n generalizing i with
  | zero => simp
  | succ n ih =>
    rw [Buffer.bytesOf_succ, List.takeWhile_cons]
    by_cases hnul : s i = 0#8
    · simp [hnul]
    · -- one character more than in the rest
      obtain ⟨hle, hchars, hend⟩ := ih (i + 1)
      simp only [bne_iff_ne.mpr hnul, if_true, List.length_cons]
      refine ⟨by omega, fun j hj => ?_, fun hlt => ?_⟩
      · cases j with
        | zero => exact hnul
        | succ j =>
          rw [← Nat.add_assoc, Nat.add_right_comm]
          exact hchars j (by omega)
      · rw [← Nat.add_assoc, Nat.add_right_comm]
        exact hend (by omega)

/-- A string of at most `n` characters ends at a NUL or behind `n` characters. -/
theorem length_stringOf_spec (s : Buffer) (n : ℕ) :
    (stringOf s n).length ≤ n ∧ (∀ j < (stringOf s n).length, s j ≠ 0#8) ∧
      ((stringOf s n).length < n → s (stringOf s n).length = 0#8) := by
  simpa [stringOf] using length_takeWhile_spec s n 0

/-- `strlen` finds the end of such a string exactly if it is shorter or a NUL follows. -/
theorem strlen_eq_length_stringOf_iff {s : Buffer} {n : ℕ} (hn : n < 4294967296) :
    strlen s = some (stringOf s n).length ↔ (stringOf s n).length < n ∨ s n = 0#8 := by
  obtain ⟨hle, hchars, hend⟩ := length_stringOf_spec s n
  rw [strlen_eq_some]
  constructor
  · rintro ⟨-, hzero, -⟩
    rcases Nat.lt_or_eq_of_le hle with hlt | heq
    · exact Or.inl hlt
    · rw [heq] at hzero
      exact Or.inr hzero
  · intro h
    refine ⟨by omega, ?_, hchars⟩
    rcases Nat.lt_or_eq_of_le hle with hlt | heq
    · exact hend hlt
    · rw [heq]
      exact h.resolve_left (by omega)

/-- A string that ends inside the characters looked at is found whole. -/
theorem stringOf_of_strlen_le {s : Buffer} {m n : ℕ} (hm : strlen s = some m) (hmn : m ≤ n) :
    stringOf s n = s.bytesOf 0 m := by
  obtain ⟨-, hnul, hfirst⟩ := strlen_eq_some.mp hm
  obtain ⟨rest, rfl⟩ := Nat.exists_eq_add_of_le hmn
  have hchars : ∀ b ∈ s.bytesOf 0 m, (b != 0#8) = true := by
    intro b hb
    obtain ⟨j, hj, rfl⟩ := List.mem_map.mp hb
    rw [Nat.zero_add]
    exact bne_iff_ne.mpr (hfirst j (List.mem_range.mp hj))
  rw [stringOf, Buffer.bytesOf_add, List.takeWhile_append_of_pos hchars]
  cases rest with
  | zero => simp
  | succ rest => rw [Buffer.bytesOf_succ, Nat.zero_add, hnul]; simp

/-- A string that goes on behind the characters looked at is cut. -/
theorem stringOf_of_lt_strlen {s : Buffer} {m n : ℕ} (hm : strlen s = some m) (hmn : n ≤ m) :
    stringOf s n = s.bytesOf 0 n := by
  obtain ⟨-, -, hfirst⟩ := strlen_eq_some.mp hm
  rw [stringOf, List.takeWhile_eq_self_iff]
  intro b hb
  obtain ⟨j, hj, rfl⟩ := List.mem_map.mp hb
  rw [Nat.zero_add]
  exact bne_iff_ne.mpr (hfirst j ((List.mem_range.mp hj).trans_le hmn))

/-! ## Whole strings -/

/-- The string at a pointer is `text`, whole. -/
def Spells (s : Buffer) (text : List Byte) : Prop :=
  strlen s = some text.length ∧ s.bytesOf 0 text.length = text

section Spells

variable {s s1 s2 : Buffer} {text text1 text2 : List Byte} {n : ℕ}

theorem spells_of_bytes (hnul : 0#8 ∉ text) (hlen : text.length < 4294967296)
    (htext : ∀ j, (hj : j < text.length) → s j = text[j]) (hend : s text.length = 0#8) :
    Spells s text := by
  refine ⟨strlen_text hnul hlen htext hend, s.bytesOf_eq_iff.mpr fun j hj => ?_⟩
  rw [Nat.zero_add]
  exact htext j hj

/-- A string literal. -/
theorem spells_cString (t : String) (hnul : 0#8 ∉ ascii t) (hlen : (ascii t).length < 4294967296)
    (rest : Buffer) : Spells (cString t rest) (ascii t) := by
  apply spells_of_bytes hnul hlen
  · intro j hj
    rw [cString, Buffer.ofList_append]
    exact Buffer.ofList_of_lt _ _ hj
  · rw [cString, Buffer.ofList_append, Buffer.ofList_length]
    rfl

/-- Characters that are stored to the start of a buffer, and a NUL behind them. -/
theorem spells_overwrite {src : Buffer} (hnul : 0#8 ∉ text) (hlen : text.length < 4294967296)
    (hsrc : ∀ j, (hj : j < text.length) → src j = text[j]) (buf : Buffer) :
    Spells (Function.update (buf.overwrite src text.length) text.length 0#8) text := by
  refine spells_of_bytes hnul hlen (fun j hj => ?_) (Function.update_self _ _ _)
  rw [Function.update_of_ne (Nat.ne_of_lt hj), Buffer.overwrite_of_lt _ _ _ hj]
  exact hsrc j hj

/-- A character of the string. -/
theorem Spells.eq_getElem (h : Spells s text) {j : ℕ} (hj : j < text.length) : s j = text[j] := by
  rw [← s.bytesOf_eq_iff.mp h.2 j hj, Nat.zero_add]

/-- The NUL of the string. -/
theorem Spells.eq_nul (h : Spells s text) : s text.length = 0#8 := (strlen_eq_some.mp h.1).2.1

theorem Spells.nul_notMem (h : Spells s text) : 0#8 ∉ text := by
  intro hmem
  obtain ⟨j, hj, hnul⟩ := List.getElem_of_mem hmem
  rw [← h.eq_getElem hj] at hnul
  exact (strlen_eq_some.mp h.1).2.2 j hj hnul

/-- There is one string at a pointer. -/
theorem Spells.unique (h1 : Spells s text1) (h2 : Spells s text2) : text1 = text2 := by
  have hlen : text1.length = text2.length := Option.some.inj (h1.1.symm.trans h2.1)
  rw [← h1.2, hlen, h2.2]

theorem Spells.iff_eq (h : Spells s text1) : Spells s text2 ↔ text2 = text1 :=
  ⟨fun h2 => h2.unique h, fun heq => heq ▸ h⟩

/-- The string from a later character on. -/
theorem Spells.drop (h : Spells s text) (hn : n ≤ text.length) :
    Spells (fun j => s (n + j)) (text.drop n) := by
  obtain ⟨hlen, hnul, -⟩ := strlen_eq_some.mp h.1
  have hidx : n + (text.drop n).length = text.length := by
    rw [List.length_drop, Nat.add_sub_cancel' hn]
  apply spells_of_bytes
  · exact fun hmem => h.nul_notMem (List.mem_of_mem_drop hmem)
  · omega
  · intro j hj
    rw [List.getElem_drop]
    exact h.eq_getElem (by omega)
  · rwa [hidx]

/-- Bytes of a string that hold no NUL are the start of it. -/
theorem Spells.bytesOf_eq_iff (h : Spells s text) {pattern : List Byte} (hnul : 0#8 ∉ pattern) :
    s.bytesOf 0 pattern.length = pattern ↔ pattern <+: text := by
  constructor
  · intro hbytes
    have hle : pattern.length ≤ text.length := by
      by_contra hlt
      -- the NUL behind the text is inside the pattern
      have hend := s.bytesOf_eq_iff.mp hbytes text.length (by omega)
      rw [Nat.zero_add, h.eq_nul] at hend
      exact hnul (hend ▸ List.getElem_mem _)
    obtain ⟨k, hk⟩ := Nat.exists_eq_add_of_le hle
    have htext := h.2
    rw [hk, Buffer.bytesOf_add, hbytes] at htext
    exact ⟨_, htext⟩
  · rintro ⟨rest, rfl⟩
    have htext := h.2
    rw [List.length_append, Buffer.bytesOf_add] at htext
    exact (List.append_inj htext (Buffer.length_bytesOf _ _ _)).1

/-- The string cut to `n` characters. -/
theorem Spells.stringOf_eq (h : Spells s text) (n : ℕ) : stringOf s n = text.take n := by
  rcases le_total text.length n with hle | hle
  · rw [stringOf_of_strlen_le h.1 hle, h.2, List.take_of_length_le hle]
  · obtain ⟨m, hm⟩ := Nat.exists_eq_add_of_le hle
    have hstart : text.take n = (s.bytesOf 0 text.length).take n := by rw [h.2]
    rw [stringOf_of_lt_strlen h.1 hle, hstart, hm, Buffer.bytesOf_add,
      List.take_left' (Buffer.length_bytesOf s 0 n)]

/-- A comparison over the whole length of the first string. -/
theorem Spells.strncmp_iff (h1 : Spells s1 text1) (h2 : Spells s2 text2)
    (hn : n = text1.length) : strncmp s1 s2 n = 0 ↔ text1 <+: text2 := by
  rw [strncmp_eq_zero_iff, h1.stringOf_eq, h2.stringOf_eq, hn, List.take_length]
  exact List.prefix_iff_eq_take.symm

end Spells

end Ece391
