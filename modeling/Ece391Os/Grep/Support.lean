import Ece391Os.Kernel.LibC

/-!
# The string functions of `ece391support.c`

What `grep` and the shell use of them. Characters are unsigned here.

* `ece391Strcpy_eq`: a string is moved to the start of its own buffer byte by byte.
* `ece391Strncmp_eq_zero_iff`: compared over its whole length, a string is found where it begins.
* `ece391Strcmp_eq_some`: equal strings are found equal.
-/

namespace Ece391

/-- `ece391_strlen` -/
def ece391Strlen (s : Buffer) : Option ℕ := s.scan fun b => b == 0#8

/-- The loop of `ece391_strcpy` inside one buffer. -/
def strcpyLoop : ℕ → Buffer → ℕ → ℕ → Option Buffer
  | 0, _, _, _ => none
  | rounds + 1, buf, dst, src =>
    let b := buf src
    let buf := Function.update buf dst b
    if b = 0#8 then some buf else strcpyLoop rounds buf (dst + 1) (src + 1)

/-- `ece391_strcpy(buf + dst, buf + src)` -/
def ece391Strcpy (buf : Buffer) (dst src : ℕ) : Option Buffer := strcpyLoop 4294967296 buf dst src

/-- `ece391_fdputs`: the bytes that are written. -/
def ece391Fdputs (s : Buffer) : Option (List Byte) := (ece391Strlen s).map (s.bytesOf 0)

/-- The loop of `ece391_strncmp` from index `i` on, with `n` characters left to compare. -/
def ece391StrncmpFrom (s1 s2 : Buffer) : ℕ → ℕ → ℤ
  | 0, _ => 0
  | n + 1, i =>
    if s1 i = s2 i then
      if s1 i = 0#8 ∨ n = 0 then 0 else ece391StrncmpFrom s1 s2 n (i + 1)
    else (s1 i).toNat - (s2 i).toNat

/-- `ece391_strncmp` -/
def ece391Strncmp (s1 s2 : Buffer) (n : ℕ) : ℤ := ece391StrncmpFrom s1 s2 n 0

/-- The loop of `ece391_strcmp` from index `i` on. -/
def ece391StrcmpFrom (s1 s2 : Buffer) : ℕ → ℕ → Option ℤ
  | 0, _ => none
  | rounds + 1, i =>
    if s1 i = s2 i then
      if s1 i = 0#8 then some 0 else ece391StrcmpFrom s1 s2 rounds (i + 1)
    else some ((s1 i).toNat - (s2 i).toNat)

/-- `ece391_strcmp` -/
def ece391Strcmp (s1 s2 : Buffer) : Option ℤ := ece391StrcmpFrom s1 s2 4294967296 0

section

variable {s buf : Buffer} {text pattern : List Byte} {n : ℕ}

theorem Spells.fdputs_eq (h : Spells s text) : ece391Fdputs s = some text := by
  have hlen : ece391Strlen s = some text.length := h.1
  rw [ece391Fdputs, hlen, Option.map_some, h.2]

/-- The rounds of `ece391_strcpy` from the `i`-th byte on. -/
theorem strcpyLoop_eq {k m : ℕ} (hnul : buf (k + m) = 0#8) (htext : ∀ j < m, buf (k + j) ≠ 0#8)
    {rounds i : ℕ} (hi : i ≤ m) (hrounds : m < i + rounds) :
    strcpyLoop rounds (buf.overwrite (fun j => buf (k + j)) i) i (k + i) =
      some (buf.overwrite (fun j => buf (k + j)) (m + 1)) := by
  induction rounds generalizing i with
  | zero => omega
  | succ rounds ih =>
    -- the byte that is read has not been overwritten
    have hread : buf.overwrite (fun j => buf (k + j)) i (k + i) = buf (k + i) :=
      Buffer.overwrite_of_le _ _ _ (Nat.le_add_left i k)
    have hstore := Buffer.overwrite_succ buf (fun j => buf (k + j)) i
    simp only [strcpyLoop, hread]
    rw [hstore]
    rcases Nat.eq_or_lt_of_le hi with rfl | hlt
    · -- the NUL has been moved
      rw [if_pos hnul]
    · rw [if_neg (htext i hlt)]
      exact ih hlt (by omega)

/-- A string of the buffer is moved to its start, with its NUL. -/
theorem ece391Strcpy_eq {k : ℕ} (h : Spells (fun j => buf (k + j)) text) :
    ece391Strcpy buf 0 k = some (buf.overwrite (fun j => buf (k + j)) (text.length + 1)) := by
  obtain ⟨hlen, hnul, htext⟩ := strlen_eq_some.mp h.1
  have hrun := strcpyLoop_eq (k := k) hnul htext (Nat.zero_le _)
    (by rwa [Nat.zero_add] : text.length < 0 + 4294967296)
  rwa [Buffer.overwrite_zero] at hrun

/-- The characters from index `i` on are those of the pattern. -/
theorem ece391StrncmpFrom_eq_zero_iff (hnul : 0#8 ∉ pattern) {i : ℕ} (hi : i ≤ pattern.length)
    (hs : ∀ j, (hj : j < pattern.length) → s j = pattern[j]) (buf : Buffer) :
    ece391StrncmpFrom buf s (pattern.length - i) i = 0 ↔
      ∀ j, i ≤ j → (hj : j < pattern.length) → buf j = pattern[j] := by
  obtain ⟨k, hk⟩ := Nat.exists_eq_add_of_le hi
  have hsub : pattern.length - i = k := by omega
  rw [hsub]
  induction k generalizing i with
  | zero => exact iff_of_true rfl fun j hle hj => by omega
  | succ k ih =>
    have hlt : i < pattern.length := by omega
    rw [ece391StrncmpFrom, hs i hlt]
    by_cases heq : buf i = pattern[i]
    · have hne : pattern[i] ≠ 0#8 := fun h => hnul (h ▸ List.getElem_mem hlt)
      rw [if_pos heq]
      -- the other characters decide, if there are any
      have hrest : (∀ j, i ≤ j → (hj : j < pattern.length) → buf j = pattern[j]) ↔
          ∀ j, i + 1 ≤ j → (hj : j < pattern.length) → buf j = pattern[j] := by
        constructor
        · exact fun h j hle => h j (by omega)
        · intro h j hle hj
          rcases Nat.eq_or_lt_of_le hle with rfl | hlt'
          · exact heq
          · exact h j hlt' hj
      rw [hrest, heq]
      by_cases hlast : k = 0
      · rw [if_pos (Or.inr hlast)]
        exact iff_of_true rfl fun j hle hj => by omega
      · rw [if_neg (not_or.mpr ⟨hne, hlast⟩)]
        exact ih (by omega) (by omega) (by omega)
    · -- the difference of two characters is not zero
      rw [if_neg heq]
      refine iff_of_false ?_ fun h => heq (h i le_rfl hlt)
      have hval : (buf i).toNat ≠ pattern[i].toNat := fun h => heq (BitVec.eq_of_toNat_eq h)
      omega

theorem ece391Strncmp_eq_zero_iff (h : Spells s pattern) :
    ece391Strncmp buf s pattern.length = 0 ↔ buf.bytesOf 0 pattern.length = pattern := by
  have hfrom := ece391StrncmpFrom_eq_zero_iff h.nul_notMem (Nat.zero_le _)
    (fun j hj => h.eq_getElem hj) buf
  rw [Nat.sub_zero] at hfrom
  rw [ece391Strncmp, hfrom, buf.bytesOf_eq_iff]
  simp only [Nat.zero_add, Nat.zero_le, forall_const]

/-- The comparison from index `i` on ends at the first difference, or at the NUL of both. -/
theorem ece391StrcmpFrom_spec (hs : Spells s pattern) (hbuf : Spells buf text) {rounds i : ℕ}
    (hi : i ≤ text.length) (hrounds : text.length < i + rounds)
    (hsame : ∀ j < i, buf j = s j) :
    ∃ d, ece391StrcmpFrom buf s rounds i = some d ∧ (d = 0 ↔ text = pattern) := by
  induction rounds generalizing i with
  | zero => omega
  | succ rounds ih =>
    rw [ece391StrcmpFrom]
    by_cases heq : buf i = s i
    · rw [if_pos heq]
      by_cases hnul : buf i = 0#8
      · -- both strings end here
        obtain ⟨hlen, -, hchars⟩ := strlen_eq_some.mp hbuf.1
        obtain rfl : i = text.length :=
          le_antisymm hi (not_lt.mp fun hlt => hchars i hlt hnul)
        have htext : Spells s text := by
          refine spells_of_bytes hbuf.nul_notMem hlen (fun j hj => ?_) (heq ▸ hnul)
          rw [← hsame j hj]
          exact hbuf.eq_getElem hj
        rw [if_pos hnul]
        exact ⟨0, rfl, iff_of_true rfl (htext.unique hs)⟩
      · have hlt : i < text.length := lt_of_le_of_ne hi fun h => hnul (h ▸ hbuf.eq_nul)
        rw [if_neg hnul]
        refine ih hlt (by omega) fun j hj => ?_
        rcases Nat.lt_succ_iff_lt_or_eq.mp hj with hj | rfl
        · exact hsame j hj
        · exact heq
    · rw [if_neg heq]
      have hval : (buf i).toNat ≠ (s i).toNat := fun h => heq (BitVec.eq_of_toNat_eq h)
      refine ⟨_, rfl, iff_of_false (by omega) ?_⟩
      rintro rfl
      -- the same string has the same characters
      rcases Nat.eq_or_lt_of_le hi with rfl | hlt
      · exact heq (hbuf.eq_nul.trans hs.eq_nul.symm)
      · exact heq ((hbuf.eq_getElem hlt).trans (hs.eq_getElem hlt).symm)

/-- `ece391_strcmp` is 0 for equal strings. -/
theorem ece391Strcmp_eq_some (hs : Spells s pattern) (hbuf : Spells buf text) :
    ∃ d, ece391Strcmp buf s = some d ∧ (d = 0 ↔ text = pattern) := by
  obtain ⟨hlen, -⟩ := strlen_eq_some.mp hbuf.1
  exact ece391StrcmpFrom_spec hs hbuf (Nat.zero_le _) (by omega) fun j hj => absurd hj j.not_lt_zero

end

end Ece391
