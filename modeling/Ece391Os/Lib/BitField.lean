import Mathlib.Data.BitVec

/-!
# Bit fields

A bit field of a word is a range of its bits, counted from the low-order end, as C compilers for the
i386 lay out bit fields.

* `get` and `set` read and assign a field.
* `get_set` and `get_set_of_disjoint`: an assignment shows in its field, and in no disjoint one.
* `setWidth_ushiftRight_and`: a part that is cut out with a mask and a shift.
-/

/-- A range of the bits of a word. -/
structure BitField (w : ℕ) where
  offset : ℕ
  width : ℕ

namespace BitField

variable {w : ℕ} {f g : BitField w} {x y : BitVec w} {i : ℕ}

/-- The bits of the field. -/
def mask (f : BitField w) : BitVec w := (BitVec.allOnes f.width).setWidth w <<< f.offset

/-- Read a field. -/
def get (f : BitField w) (x : BitVec w) : BitVec f.width := x.extractLsb' f.offset f.width

/-- Assign to a field. -/
def set (f : BitField w) (v : BitVec f.width) (x : BitVec w) : BitVec w :=
  (x &&& ~~~f.mask) ||| v.setWidth w <<< f.offset

/-- The field holds the bit with index `i`. -/
def Has (f : BitField w) (i : ℕ) : Prop := f.offset ≤ i ∧ i < f.offset + f.width

instance (f : BitField w) (i : ℕ) : Decidable (f.Has i) := inferInstanceAs (Decidable (_ ∧ _))

/-- The field is within the word. -/
def Fits (f : BitField w) : Prop := f.offset + f.width ≤ w

instance (f : BitField w) : Decidable f.Fits := inferInstanceAs (Decidable (_ ≤ _))

/-- No bit is in both fields. -/
def Disjoint (f g : BitField w) : Prop :=
  f.offset + f.width ≤ g.offset ∨ g.offset + g.width ≤ f.offset

instance (f g : BitField w) : Decidable (f.Disjoint g) := inferInstanceAs (Decidable (_ ∨ _))

theorem getLsbD_mask : f.mask.getLsbD i = decide (i < w ∧ f.Has i) := by
  rw [mask, BitVec.getLsbD_shiftLeft, BitVec.getLsbD_setWidth, BitVec.getLsbD_allOnes]
  by_cases hi : i < w
  · have hdist : i - f.offset < w := by omega
    by_cases hlow : i < f.offset
    · simp [Has, hlow, not_le.mpr hlow]
    · simp only [Has, hi, hdist, hlow, not_lt.mp hlow, decide_true, decide_false, Bool.not_false,
        Bool.true_and, true_and]
      apply decide_eq_decide.mpr
      omega
  · simp [hi]

/-- The bits of a word behind an assignment. -/
theorem getLsbD_set (v : BitVec f.width) (hi : i < w) :
    (f.set v x).getLsbD i = if f.Has i then v.getLsbD (i - f.offset) else x.getLsbD i := by
  rw [set, BitVec.getLsbD_or, BitVec.getLsbD_and, BitVec.getLsbD_not, getLsbD_mask,
    BitVec.getLsbD_shiftLeft, BitVec.getLsbD_setWidth]
  unfold Has
  by_cases hlow : i < f.offset
  · simp [hi, hlow, not_le.mpr hlow]
  by_cases hhigh : i < f.offset + f.width
  · have hdist : i - f.offset < w := by omega
    simp [hi, hhigh, hdist, not_lt.mp hlow]
  · -- above the field the assigned value has no bits
    have habove : v.getLsbD (i - f.offset) = false := BitVec.getLsbD_of_ge _ _ (by omega)
    simp [hi, hhigh, habove]

/-- An assigned field has its value. -/
@[simp]
theorem get_set (hfits : f.Fits) (v : BitVec f.width) : f.get (f.set v x) = v := by
  apply BitVec.eq_of_getLsbD_eq
  intro i hi
  unfold Fits at hfits
  have hhas : f.Has (f.offset + i) := ⟨by omega, by omega⟩
  rw [get, BitVec.getLsbD_extractLsb', getLsbD_set v (by omega), if_pos hhas,
    Nat.add_sub_cancel_left, decide_eq_true hi, Bool.true_and]

/-- The others keep theirs. -/
@[simp]
theorem get_set_of_disjoint (hdisjoint : f.Disjoint g) (hfits : f.Fits) (v : BitVec g.width) :
    f.get (g.set v x) = f.get x := by
  apply BitVec.eq_of_getLsbD_eq
  intro i hi
  unfold Fits at hfits
  unfold Disjoint at hdisjoint
  have hhas : ¬ g.Has (f.offset + i) := by
    unfold Has
    omega
  rw [get, get, BitVec.getLsbD_extractLsb', BitVec.getLsbD_extractLsb', getLsbD_set v (by omega),
    if_neg hhas]

/-- A part of a word, cut out with a mask and a shift. -/
theorem setWidth_ushiftRight_and {m : BitVec w} {k n : ℕ}
    (hm : (m >>> k).setWidth n = BitVec.allOnes n) :
    ((x &&& m) >>> k).setWidth n = x.extractLsb' k n := by
  rw [BitVec.ushiftRight_and_distrib, BitVec.setWidth_and, hm, BitVec.and_allOnes,
    BitVec.setWidth_ushiftRight_eq_extractLsb]

end BitField
