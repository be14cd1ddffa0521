import Ece391Os.Kernel.LibC
import Ece391Os.Lib.Numeral

/-!
# `itoa` and `strrev`

`itoa` divides by the radix until nothing is left, stores a digit each time, and reverses the
string.

* `strrevLoop_apply`: what the swaps of `strrev` do to each byte.
* `itoaLoop_eq`: the division loop stores the digits backwards.
* `itoa_spells`: for each radix from 2 to 36 the buffer holds the numeral, with a NUL behind it.
-/

namespace Ece391

open Numeral

/-- The swaps of `strrev`, from both ends of the string. -/
def strrevLoop (s : Buffer) (beg stop : ℤ) : Buffer :=
  if beg < stop then
    let tmp := s stop.toNat
    let s := Function.update s stop.toNat (s beg.toNat)
    strrevLoop (Function.update s beg.toNat tmp) (beg + 1) (stop - 1)
  else s
termination_by (stop - beg).toNat

/-- `strrev` -/
def strrev (s : Buffer) : Option Buffer := do
  let len ← strlen s
  return strrevLoop s 0 (len - 1)

/-- The table of `itoa`. -/
def Itoa.lookup : List Byte := ascii "0123456789ABCDEFGHIJKLMNOPQRSTUVWXYZ"

/-- The division loop of `itoa`, from index `newbuf` on. There is no result for a radix that is
zero or has digits behind the end of the table, or if the rounds do not suffice. -/
def itoaLoop (radix : Word) : ℕ → Word → ℕ → Buffer → Option (ℕ × Buffer)
  | 0, newval, newbuf, buf => if newval = 0#32 then some (newbuf, buf) else none
  | rounds + 1, newval, newbuf, buf =>
    if newval = 0#32 then some (newbuf, buf)
    else if radix = 0#32 then none
    else do
      let digit ← Itoa.lookup[(newval % radix).toNat]?
      itoaLoop radix rounds (newval / radix) (newbuf + 1) (Function.update buf newbuf digit)

/-- `itoa`. A word has at most 32 digits. -/
def itoa (value : Word) (buf : Buffer) (radix : Word) : Option Buffer :=
  if value = 0#32 then
    -- the special case for zero
    some (Function.update (Function.update buf 0 0x30#8) 1 0#8)
  else do
    let (newbuf, buf) ← itoaLoop radix 32 value 0 buf
    strrev (Function.update buf newbuf 0#8)

/-- The character of a digit. -/
def digitChar (d : ℕ) : Byte := Itoa.lookup.getD d 0#8

/-- The text of a list of digits. -/
def digitText (ds : List ℕ) : List Byte := ds.map digitChar

/-- The number that a text stands for: each character is looked up in the table. -/
def readText (r : ℕ) (text : List Byte) : ℕ := value r (text.map fun b => Itoa.lookup.idxOf b)

/-! ## `strrev` -/

/-- The bytes from `beg` to `stop` change places. -/
theorem strrevLoop_apply {s : Buffer} {beg stop : ℤ} (hbeg : 0 ≤ beg) (j : ℕ) :
    strrevLoop s beg stop j =
      if beg ≤ j ∧ (j : ℤ) ≤ stop then s (beg + stop - j).toNat else s j := by
  induction s, beg, stop using strrevLoop.induct generalizing j with
  | case1 s beg stop hlt tmp s₁ ih =>
    rw [strrevLoop, if_pos hlt]
    refine (ih (by omega) j).trans ?_
    -- the two outer bytes have been swapped, and the others not been touched
    have houter : ∀ i : ℕ, (i : ℤ) ≠ beg → (i : ℤ) ≠ stop →
        Function.update s₁ beg.toNat tmp i = s i := by
      intro i hib his
      rw [Function.update_of_ne (by omega)]
      exact Function.update_of_ne (by omega) _ _
    by_cases hin : beg + 1 ≤ j ∧ (j : ℤ) ≤ stop - 1
    · rw [if_pos hin, if_pos (by omega), houter _ (by omega) (by omega)]
      congr 2
      omega
    · -- the outer bytes, and those outside
      rw [if_neg hin]
      by_cases hjb : (j : ℤ) = beg
      · have hidx : j = beg.toNat := by omega
        rw [if_pos (by omega), hidx, Function.update_self]
        change s stop.toNat = _
        congr 1
        omega
      · by_cases hjs : (j : ℤ) = stop
        · have hidx : j = stop.toNat := by omega
          rw [if_pos (by omega), hidx, Function.update_of_ne (by omega)]
          refine (Function.update_self _ _ _).trans ?_
          congr 1
          omega
        · rw [if_neg (by omega), houter j hjb hjs]
  | case2 s beg stop hge =>
    -- a byte in the middle is its own partner
    rw [strrevLoop, if_neg hge]
    by_cases hin : beg ≤ j ∧ (j : ℤ) ≤ stop
    · rw [if_pos hin]
      congr 1
      omega
    · rw [if_neg hin]

/-- `strrev` reverses a string. -/
theorem strrev_spells {s : Buffer} {text : List Byte} (h : Spells s text) :
    ∃ s', strrev s = some s' ∧ Spells s' text.reverse := by
  refine ⟨strrevLoop s 0 (text.length - 1), by simp [strrev, h.1], ?_⟩
  have hlen := (strlen_eq_some.mp h.1).1
  apply spells_of_bytes
  · rw [List.mem_reverse]
    exact h.nul_notMem
  · rwa [List.length_reverse]
  · intro j hj
    rw [List.length_reverse] at hj
    rw [strrevLoop_apply le_rfl, if_pos (by omega), List.getElem_reverse, ← h.eq_getElem]
    congr 1
    omega
  · -- the NUL is not among the bytes that change places
    rw [List.length_reverse, strrevLoop_apply le_rfl, if_neg (by omega)]
    exact h.eq_nul

/-! ## `itoa` -/

theorem digitChar_ne_nul {d : ℕ} (hd : d < 36) : digitChar d ≠ 0#8 := by
  have htable : ∀ d : Fin 36, digitChar d ≠ 0#8 := by decide
  exact htable ⟨d, hd⟩

/-- A numeral is read back from its text. -/
theorem readText_digitText {r v : ℕ} {ds : List ℕ} (hr : r ≤ 36) (h : IsNumeral r v ds) :
    readText r (digitText ds) = v := by
  -- no character is twice in the table
  have htable : ∀ d : Fin 36, Itoa.lookup.idxOf (digitChar d) = d := by decide
  have hread : (digitText ds).map (fun b => Itoa.lookup.idxOf b) = ds := by
    rw [digitText, List.map_map]
    refine (List.map_congr_left fun d hd => ?_).trans ds.map_id
    exact htable ⟨d, (h.digits d hd).trans_le hr⟩
  rw [readText, hread, h.value]

/-- The division loop stores the digits, the least significant one first. -/
theorem itoaLoop_eq {radix : Word} (hr : 2 ≤ radix.toNat) (hr' : radix.toNat ≤ 36) {rounds : ℕ}
    {v : Word} (hv : v.toNat < radix.toNat ^ rounds) (k : ℕ) (buf : Buffer) :
    itoaLoop radix rounds v k buf =
      let text := digitText (Nat.digits radix.toNat v.toNat)
      some (k + text.length, buf.splice k (Buffer.ofList text fun _ => 0#8) text.length) := by
  induction rounds generalizing v k buf with
  | zero =>
    -- nothing is left to be divided
    have hzero : v = 0#32 := BitVec.eq_of_toNat_eq (Nat.lt_one_iff.mp hv)
    rw [hzero, itoaLoop, if_pos rfl]
    simp [digitText]
  | succ rounds ih =>
    rw [itoaLoop]
    by_cases hzero : v = 0#32
    · rw [if_pos hzero, hzero]
      simp [digitText]
    · have hradix : radix ≠ 0#32 := by
        rintro rfl
        exact absurd hr (by decide)
      have hvne : v.toNat ≠ 0 := fun h => hzero (BitVec.eq_of_toNat_eq h)
      have hmod : v.toNat % radix.toNat < 36 := (Nat.mod_lt _ (by omega)).trans_le hr'
      have hdigit : Itoa.lookup[(v % radix).toNat]? = some (digitChar (v.toNat % radix.toNat)) := by
        rw [BitVec.toNat_umod, digitChar, List.getD_eq_getElem?_getD]
        rw [List.getElem?_eq_getElem (show _ < Itoa.lookup.length from hmod), Option.getD_some]
      have hquot : (v / radix).toNat < radix.toNat ^ rounds := by
        rw [BitVec.toNat_udiv]
        exact Nat.div_lt_of_lt_mul (by rwa [Nat.pow_succ, Nat.mul_comm] at hv)
      -- the digit that is stored is the first one, and those of the quotient follow
      rw [if_neg hzero, if_neg hradix, hdigit, Nat.digits_eq_cons_digits_div (by omega) hvne]
      refine (ih hquot (k + 1) _).trans ?_
      rw [BitVec.toNat_udiv]
      simp only [digitText, List.map_cons, List.length_cons, Option.some.injEq, Prod.mk.injEq]
      exact ⟨by omega, Buffer.splice_ofList_cons _ _ _ _ _⟩

/-- `itoa` leaves the numeral of the value. -/
theorem itoa_spells (radix : Word) (hr : 2 ≤ radix.toNat) (hr' : radix.toNat ≤ 36) (v : Word)
    (buf : Buffer) :
    ∃ buf' ds, itoa v buf radix = some buf' ∧ IsNumeral radix.toNat v.toNat ds ∧
      Spells buf' (digitText ds) := by
  by_cases hzero : v = 0#32
  · refine ⟨Function.update (Function.update buf 0 0x30#8) 1 0#8, [0], ?_, ?_, ?_⟩
    · rw [itoa, if_pos hzero]
    · rw [hzero]
      exact isNumeral_zero (by omega)
    · apply spells_of_bytes (by decide) (by decide)
      · intro j hj
        obtain rfl : j = 0 := Nat.lt_one_iff.mp hj
        rfl
      · rfl
  · have hvne : v.toNat ≠ 0 := fun h => hzero (BitVec.eq_of_toNat_eq h)
    have hdigits := isNumeral_digits (by omega : 1 < radix.toNat) hvne
    have hv : v.toNat < radix.toNat ^ 32 := v.isLt.trans_le (Nat.pow_le_pow_left hr 32)
    -- the rounds suffice in base two
    have hlen : (Nat.digits radix.toNat v.toNat).length ≤ 32 :=
      (Nat.digits_length_le_iff (by omega) _).mpr hv
    -- the string before it is reversed
    have hloop := itoaLoop_eq hr hr' hv 0 buf
    have hstring : Spells (Function.update (buf.splice 0 (Buffer.ofList
        (digitText (Nat.digits radix.toNat v.toNat)) fun _ => 0#8)
          (digitText (Nat.digits radix.toNat v.toNat)).length)
            (0 + (digitText (Nat.digits radix.toNat v.toNat)).length) 0#8)
        (digitText (Nat.digits radix.toNat v.toNat)) := by
      rw [Nat.zero_add, Buffer.splice_zero_start]
      apply spells_overwrite
      · intro hnul
        obtain ⟨d, hd, hchar⟩ := List.mem_map.mp hnul
        exact digitChar_ne_nul ((Nat.digits_lt_base (by omega) hd).trans_le hr') hchar
      · rw [digitText, List.length_map]
        omega
      · exact fun j hj => Buffer.ofList_of_lt _ _ hj
    obtain ⟨buf', hrev, hspells⟩ := strrev_spells hstring
    refine ⟨buf', (Nat.digits radix.toNat v.toNat).reverse, ?_, hdigits, ?_⟩
    · rw [itoa, if_neg hzero, hloop]
      exact hrev
    · rwa [digitText, List.map_reverse]

end Ece391
