import Mathlib.Data.Nat.Digits.Lemmas
import Mathlib.Data.List.Lex
import Mathlib.Order.Defs.LinearOrder

/-!
# Numerals

Numbers in a base `r`, as lists of digits with the most significant one first. Mathlib's
`Nat.digits` and `Nat.ofDigits` have the least significant one first.

* `value r ds` reads a list of digits.
* `IsNumeral r v ds` says that `ds` is the numeral of `v`, without leading zeros.
  `isNumeral_digits`: the reverse of `Nat.digits` is.
* `IsPadded r w v ds` says that `ds` are `w` digits of value `v`. `IsNumeral.padded` pads a numeral,
  and `IsPadded.lt` compares two numbers digit by digit.
* `fieldsText` is a text of several numbers, and `fieldsText_lt_iff` compares two of them.
-/

namespace Numeral

variable {r v v' w d : ℕ} {ds ds' : List ℕ}

/-- The number that a list of digits stands for. -/
def value (r : ℕ) (ds : List ℕ) : ℕ := Nat.ofDigits r ds.reverse

theorem value_cons (r d : ℕ) (ds : List ℕ) :
    value r (d :: ds) = value r ds + r ^ ds.length * d :=
  Nat.ofDigits_reverse_cons ds d

/-- Zeros in front of a number. -/
theorem value_replicate_append (r k : ℕ) (ds : List ℕ) :
    value r (List.replicate k 0 ++ ds) = value r ds := by
  rw [value, List.reverse_append, List.reverse_replicate, Nat.ofDigits_append_replicate_zero, value]

theorem value_lt (hr : 1 < r) (hds : ∀ d ∈ ds, d < r) : value r ds < r ^ ds.length := by
  rw [← List.length_reverse]
  exact Nat.ofDigits_lt_base_pow_length hr fun d hd => hds d (List.mem_reverse.mp hd)

/-- The digits of a number, with no zero in front but for the number zero. -/
structure IsNumeral (r v : ℕ) (ds : List ℕ) : Prop where
  ne_nil : ds ≠ []
  digits : ∀ d ∈ ds, d < r
  no_leading_zero : ds.head? = some 0 → ds = [0]
  value : value r ds = v

theorem isNumeral_zero (hr : 0 < r) : IsNumeral r 0 [0] where
  ne_nil := List.cons_ne_nil _ _
  digits := List.forall_mem_singleton.mpr hr
  no_leading_zero _ := rfl
  value := Nat.ofDigits_singleton

/-- The digits that division by the base yields, backwards. -/
theorem isNumeral_digits (hr : 1 < r) (hv : v ≠ 0) : IsNumeral r v (Nat.digits r v).reverse where
  ne_nil := List.reverse_ne_nil_iff.mpr (Nat.digits_ne_nil_iff_ne_zero.mpr hv)
  digits d hd := Nat.digits_lt_base hr (List.mem_reverse.mp hd)
  no_leading_zero hhead := by
    have hne : Nat.digits r v ≠ [] := Nat.digits_ne_nil_iff_ne_zero.mpr hv
    rw [List.head?_reverse, List.getLast?_eq_some_getLast hne] at hhead
    exact absurd (Option.some.inj hhead) (Nat.getLast_digit_ne_zero r hv)
  value := by rw [Numeral.value, List.reverse_reverse, Nat.ofDigits_digits]

/-- A numeral is not longer than the number of places that its value needs. -/
theorem IsNumeral.length_le (h : IsNumeral r v ds) (hr : 1 < r) (hw : 0 < w) (hv : v < r ^ w) :
    ds.length ≤ w := by
  obtain ⟨d, ds, rfl⟩ := List.exists_cons_of_ne_nil h.ne_nil
  rcases Nat.eq_zero_or_pos d with rfl | hd
  · -- the number zero has one place
    rw [h.no_leading_zero rfl]
    exact hw
  · have hle : r ^ ds.length ≤ v := by
      rw [← h.value, value_cons]
      exact (Nat.le_mul_of_pos_right _ hd).trans (Nat.le_add_left _ _)
    exact (Nat.pow_lt_pow_iff_right hr).mp (hle.trans_lt hv)

/-- `w` digits of a number. -/
structure IsPadded (r w v : ℕ) (ds : List ℕ) : Prop where
  length : ds.length = w
  digits : ∀ d ∈ ds, d < r
  value : value r ds = v

/-- A numeral with zeros in front. -/
theorem IsNumeral.padded (h : IsNumeral r v ds) (hr : 0 < r) (hlen : ds.length ≤ w) :
    IsPadded r w v (List.replicate (w - ds.length) 0 ++ ds) where
  length := by rw [List.length_append, List.length_replicate, Nat.sub_add_cancel hlen]
  digits := by
    intro d hd
    rcases List.mem_append.mp hd with hzero | hdigit
    · rw [List.eq_of_mem_replicate hzero]
      exact hr
    · exact h.digits d hdigit
  value := (value_replicate_append r _ ds).trans h.value

/-- Numbers of equally many places are ordered like their digits. -/
theorem IsPadded.lt (hr : 1 < r) (h : IsPadded r w v ds) (h' : IsPadded r w v' ds')
    (hlt : v < v') : ds < ds' := by
  induction ds generalizing w v v' ds' with
  | nil =>
    -- no places, and both numbers are zero
    have hnil : ds' = [] := List.length_eq_zero_iff.mp (h'.length.trans h.length.symm)
    have hval := h.value
    have hval' := h'.value
    rw [hnil] at hval'
    omega
  | cons d ds ih =>
    obtain ⟨d', ds', rfl⟩ : ∃ d' ds'', ds' = d' :: ds'' := by
      apply List.exists_cons_of_length_pos
      rw [h'.length, ← h.length]
      exact Nat.succ_pos _
    have hlen : ds.length = ds'.length := Nat.succ.inj (h.length.trans h'.length.symm)
    have hval := h.value
    have hval' := h'.value
    rw [value_cons, hlen] at hval
    rw [value_cons] at hval'
    rw [List.cons_lt_cons_iff]
    rcases lt_trichotomy d d' with hd | rfl | hd
    · exact Or.inl hd
    · -- the same first digit, and the others decide
      refine Or.inr ⟨rfl, ?_⟩
      refine ih ⟨hlen, ?_, rfl⟩ ⟨rfl, ?_, rfl⟩ (by omega)
      · exact fun a ha => h.digits a (List.mem_cons_of_mem _ ha)
      · exact fun a ha => h'.digits a (List.mem_cons_of_mem _ ha)
    · -- a larger first digit makes the larger number
      have hsmall : Numeral.value r ds' < r ^ ds'.length :=
        value_lt hr fun a ha => h'.digits a (List.mem_cons_of_mem _ ha)
      have hstep : r ^ ds'.length * (d' + 1) ≤ r ^ ds'.length * d := Nat.mul_le_mul_left _ hd
      rw [Nat.mul_succ] at hstep
      omega

/-- Lists that are already ordered, of one length, with anything behind them. -/
theorem append_lt_append {α : Type*} [LinearOrder α] {as bs : List α} (hlen : as.length = bs.length)
    (hlt : as < bs) (cs cs' : List α) : as ++ cs < bs ++ cs' := by
  induction as generalizing bs with
  | nil => exact absurd hlt (by simp [List.length_eq_zero_iff.mp hlen.symm])
  | cons a as ih =>
    obtain ⟨b, bs, rfl⟩ : ∃ b bs', bs = b :: bs' := by
      apply List.exists_cons_of_length_pos
      rw [← hlen]
      exact Nat.succ_pos _
    rw [List.cons_append, List.cons_append, List.cons_lt_cons_iff]
    rcases List.cons_lt_cons_iff.mp hlt with hab | ⟨rfl, htail⟩
    · exact Or.inl hab
    · exact Or.inr ⟨rfl, ih (Nat.succ.inj hlen) htail⟩

/-! ## Texts of several numbers -/

/-- The digits of a number in `w` places. -/
def padded (r : ℕ) : ℕ → ℕ → List ℕ
  | 0, _ => []
  | w + 1, v => v / r ^ w % r :: padded r w v

theorem length_padded (r w v : ℕ) : (padded r w v).length = w := by
  induction w with
  | zero => rfl
  | succ w ih => rw [padded, List.length_cons, ih]

theorem value_padded (r w v : ℕ) : value r (padded r w v) = v % r ^ w := by
  induction w with
  | zero => exact (Nat.mod_one v).symm
  | succ w ih => rw [padded, value_cons, ih, length_padded, Nat.mod_pow_succ]

theorem isPadded_padded (hr : 0 < r) (hv : v < r ^ w) : IsPadded r w v (padded r w v) where
  length := length_padded r w v
  digits := by
    clear hv
    induction w with
    | zero => exact List.forall_mem_nil _
    | succ w ih => exact List.forall_mem_cons.mpr ⟨Nat.mod_lt _ hr, ih⟩
  value := by rw [value_padded, Nat.mod_eq_of_lt hv]

/-- Numbers one behind the other, each in a fixed number of places and with a separator behind it.
`char` maps digits to characters. -/
def fieldsText (r : ℕ) (char : ℕ → ℕ) : List (ℕ × List ℕ) → List ℕ → List ℕ
  | (w, sep) :: layout, v :: vs => (padded r w v).map char ++ (sep ++ fieldsText r char layout vs)
  | _, _ => []

/-- The texts are ordered like the lists of numbers. -/
theorem fieldsText_lt (hr : 1 < r) {char : ℕ → ℕ} (hchar : StrictMono char)
    {layout : List (ℕ × List ℕ)} {vs vs' : List ℕ}
    (hvs : List.Forall₂ (fun f v => v < r ^ f.1) layout vs)
    (hvs' : List.Forall₂ (fun f v => v < r ^ f.1) layout vs') (hlt : vs < vs') :
    fieldsText r char layout vs < fieldsText r char layout vs' := by
  induction hvs generalizing vs' with
  | nil =>
    cases hvs'
    exact absurd hlt (List.not_lt_nil [])
  | @cons f v layout vs hv _ ih =>
    obtain ⟨w, sep⟩ := f
    cases hvs' with
    | @cons _ v' _ vs' hv' hvs' =>
      rcases List.cons_lt_cons_iff.mp hlt with hhead | ⟨rfl, htail⟩
      · -- the first number decides
        have hdigits : padded r w v < padded r w v' :=
          (isPadded_padded (by omega) hv).lt hr (isPadded_padded (by omega) hv') hhead
        apply append_lt_append (by simp [length_padded])
        exact List.map_lt (fun _ _ hlt => hchar hlt) hdigits
      · -- the first fields are the same
        exact List.append_left_lt (List.append_left_lt (ih hvs' htail))

theorem fieldsText_lt_iff (hr : 1 < r) {char : ℕ → ℕ} (hchar : StrictMono char)
    {layout : List (ℕ × List ℕ)} {vs vs' : List ℕ}
    (hvs : List.Forall₂ (fun f v => v < r ^ f.1) layout vs)
    (hvs' : List.Forall₂ (fun f v => v < r ^ f.1) layout vs') :
    fieldsText r char layout vs < fieldsText r char layout vs' ↔ vs < vs' := by
  refine ⟨fun hlt => ?_, fieldsText_lt hr hchar hvs hvs'⟩
  rcases lt_trichotomy vs vs' with hcmp | rfl | hcmp
  · exact hcmp
  · exact absurd hlt (lt_irrefl _)
  · exact absurd (fieldsText_lt hr hchar hvs' hvs hcmp) (lt_asymm hlt)

end Numeral
