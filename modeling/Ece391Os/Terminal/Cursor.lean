import Ece391Os.Process.Boot

/-!
# The cursor

Where `putc` leaves the cursor. A newline on the last row scrolls and stays on row 23; a character
in the last column of the last row scrolls and leaves the cursor on row 24, below the screen.

* `Screen.InBounds`: the cursor is on the screen.
* `InBounds.putc`, `Wraps.putc`: one byte, outside of the case that goes wrong and in it.
* `always_inBounds_iff`: over a sequence of bytes the cursor stays on the screen, and all writes
  inside the text rows, exactly when no character arrives at the last cell.
-/

namespace Ece391

open Transition

namespace Screen

/-- The cursor is on the screen. -/
def InBounds (s : Screen) : Prop := 0 ≤ s.x ∧ s.x < numCols ∧ 0 ≤ s.y ∧ s.y < numRows

instance (s : Screen) : Decidable s.InBounds := inferInstanceAs (Decidable (_ ∧ _ ∧ _ ∧ _))

/-- A character, not a newline, is printed in the last column of the last row. -/
def Wraps (s : Screen) (c : Byte) : Prop :=
  Console.isNewline c = false ∧ s.x = numCols - 1 ∧ s.y = numRows - 1

instance (s : Screen) (c : Byte) : Decidable (s.Wraps c) := inferInstanceAs (Decidable (_ ∧ _ ∧ _))

variable {s s' : Screen} {c : Byte}

/-- The cell under a cursor on the screen lies in the text rows. -/
theorem InBounds.cell (h : s.InBounds) : 0 ≤ s.cell ∧ s.cell + 1 < 2 * numCols * numRows := by
  obtain ⟨hx0, hx, hy0, hy⟩ := h
  simp only [Screen.cell, numCols, numRows] at *
  omega

theorem InBounds.newline (h : s.InBounds) : s.newline.InBounds := by
  obtain ⟨hx0, hx, hy0, hy⟩ := h
  rw [Screen.newline]
  split_ifs with hlast <;> simp only [InBounds, numCols, numRows] at * <;> omega

theorem InBounds.advance (h : s.InBounds) (hwrap : ¬ (s.x = numCols - 1 ∧ s.y = numRows - 1)) :
    s.advance.InBounds := by
  obtain ⟨hx0, hx, hy0, hy⟩ := h
  rw [Screen.advance]
  split_ifs with hcol hlast <;> simp only [InBounds, numCols, numRows] at * <;> omega

/-- A byte printed with the cursor on the screen never faults. -/
theorem InBounds.putc_isSome (h : s.InBounds) (c : Byte) : ∃ s', s.putc c = some s' := by
  obtain ⟨h0, hlt⟩ := h.cell
  simp only [numCols, numRows] at hlt
  rw [Screen.putc]
  split_ifs with hnl hcell
  · exact ⟨_, rfl⟩
  · exact ⟨_, rfl⟩
  · exact absurd ⟨h0, by omega⟩ hcell

/-- Any other byte keeps the cursor on the screen. -/
theorem InBounds.putc (h : s.InBounds) (hwrap : ¬ s.Wraps c) (hs : s.putc c = some s') :
    s'.InBounds := by
  rw [Screen.putc] at hs
  split_ifs at hs with hnl hcell
  · cases hs
    exact h.newline
  · cases hs
    have hstore : (s.store s.cell c).InBounds := h
    refine hstore.advance fun hlast => hwrap ⟨?_, hlast⟩
    exact Bool.eq_false_iff.mpr hnl

/-- A character in the last cell leaves the cursor below the screen. -/
theorem Wraps.putc (hwrap : s.Wraps c) (hs : s.putc c = some s') :
    s'.y = numRows := by
  obtain ⟨hnl, hx, hy⟩ := hwrap
  rw [Screen.putc, if_neg (by rw [hnl]; exact Bool.false_ne_true)] at hs
  split_ifs at hs with hcell
  cases hs
  -- both conditions of the branch that scrolls hold, where `screen_y` is set to 24
  have hcol : (s.store s.cell c).x + 1 = 80 := by
    change s.x + 1 = 80
    rw [hx]
    rfl
  have hrow : (s.store s.cell c).y + 1 = numRows := by
    change s.y + 1 = numRows
    rw [hy]
    rfl
  rw [Screen.advance, if_pos hcol, if_pos hrow]

/-- With the cursor on the screen, a byte changes the page in the text rows only. -/
theorem InBounds.putc_page (h : s.InBounds) (hs : s.putc c = some s') {o : ℕ}
    (ho : 2 * numCols * numRows ≤ o) : s'.page o = s.page o := by
  have hcell := h.cell
  simp only [numCols, numRows] at hcell ho
  -- a scroll rewrites the text rows only
  have hscroll : ∀ p, scrollPage p o = p o := by
    intro p
    rw [scrollPage_apply, if_neg (by omega), if_neg (by omega)]
  -- so does the store under the cursor
  have hstore : (s.store s.cell c).page o = s.page o := by
    simp only [store]
    rw [Function.update_of_ne (by omega), Function.update_of_ne (by omega)]
  rw [Screen.putc] at hs
  split_ifs at hs
  · cases hs
    rw [Screen.newline]
    split_ifs
    · exact hscroll _
    · rfl
  · cases hs
    rw [Screen.advance]
    split_ifs
    · exact (hscroll _).trans hstore
    · exact hstore
    · exact hstore

end Screen

namespace Console

variable {t : TermId} {P : ℕ}

/-- The byte is stored in the text rows of page `P`, and nothing else is written. -/
def WritesInside (t : TermId) (P : ℕ) (con : Console) (c : Byte) : Prop :=
  (isNewline c = false → 0 ≤ con.cursorCell t ∧ con.cursorCell t + 1 < 2 * numCols * numRows) ∧
    ∀ con', con.putc t P c = some con' →
      ∀ Q o, (Q ≠ P ∨ 2 * numCols * numRows ≤ o) → con'.vram Q o = con.vram Q o

theorem writesInside {con : Console} (h : (con.screenAt t P).InBounds) (c : Byte) :
    WritesInside t P con c := by
  refine ⟨fun _ => h.cell, fun con' hcon' Q o hQ => ?_⟩
  rcases eq_or_ne Q P with rfl | hne
  · exact h.putc_page (screenAt_putc hcon') (hQ.resolve_left fun hne => hne rfl)
  · rw [(onlyScreen_putc hcon').vram Q hne]

/-- Printing a sequence of bytes on a terminal whose cursor is on the screen: the cursor is on the
screen after every byte, and every write is in the text rows of the terminal's page, exactly when no
character is printed in the last column of the last row. -/
theorem always_inBounds_iff {con : Console} (hcon : (con.screenAt t P).InBounds) (l : List Byte) :
    Always (fun con c => con.putc t P c) (fun con => (con.screenAt t P).InBounds) con l ∧
        Along (fun con c => con.putc t P c) (WritesInside t P) con l ↔
      Along (fun con c => con.putc t P c) (fun con c => ¬ (con.screenAt t P).Wraps c) con l := by
  -- a byte that does not wrap keeps the cursor on the screen
  have hstep : ∀ (con : Console) c con', (con.screenAt t P).InBounds →
      ¬ (con.screenAt t P).Wraps c → con.putc t P c = some con' →
      (con'.screenAt t P).InBounds := fun con c con' h hwrap hcon' =>
    h.putc hwrap (screenAt_putc hcon')
  -- a byte that wraps is printed, and leaves the cursor on row 24
  have hiff : Always (fun con c => con.putc t P c) (fun con => (con.screenAt t P).InBounds) con l ↔
      Along (fun con c => con.putc t P c) (fun con c => ¬ (con.screenAt t P).Wraps c) con l := by
    refine always_iff_along (fun _ h => h) hstep (fun con c h hwrap => ?_) hcon
    obtain ⟨s', hs'⟩ := h.putc_isSome c
    refine ⟨_, by rw [putc_eq, hs']; rfl, fun hin => ?_⟩
    have hy := (not_not.mp hwrap).putc hs'
    rw [screenAt_refresh, screenAt_setScreenAt] at hin
    exact absurd hin.2.2.2 (by rw [hy]; exact lt_irrefl _)
  constructor
  · rintro ⟨halways, -⟩
    exact hiff.mp halways
  · intro halong
    exact ⟨hiff.mpr halong,
      along_of_invariant hstep (fun con c h _ => writesInside h c) hcon halong⟩

/-- Two lines of output at boot. -/
theorem always_inBounds_sample :
    Always (fun con c => con.putc 0 0xB8 c) (fun con => (con.screenAt 0 0xB8).InBounds)
        (bootConsole zeroRam) (ascii "Starting\n391OS") ∧
      Along (fun con c => con.putc 0 0xB8 c) (WritesInside 0 0xB8) (bootConsole zeroRam)
        (ascii "Starting\n391OS") := by
  apply (always_inBounds_iff (by decide) _).mpr
  decide +kernel

/-- From an empty screen, 23 newlines and a full last row put the cursor on row 24; the next
character is stored behind the text rows. -/
theorem not_inBounds_full_last_row :
    ((bootConsole zeroRam).screenAt 0 0xB8).InBounds ∧
      ∃ con, (bootConsole zeroRam).puts 0 0xB8
          (List.replicate 23 0x0A#8 ++ List.replicate 80 0x61#8) = some con ∧
        ¬ (con.screenAt 0 0xB8).InBounds ∧ (con.terms 0).screenY = 24 ∧
        con.cursorCell 0 = 3840 := by
  refine ⟨by decide, ?_⟩
  have hrun : ((bootConsole zeroRam).puts 0 0xB8
      (List.replicate 23 0x0A#8 ++ List.replicate 80 0x61#8)).map
        (fun con => ((con.terms 0).screenX, (con.terms 0).screenY)) = some (0, 24) := by
    decide +kernel
  obtain ⟨con, hcon, hcursor⟩ := Option.map_eq_some_iff.mp hrun
  obtain ⟨hx, hy⟩ := Prod.mk.inj hcursor
  refine ⟨con, hcon, fun hin => ?_, hy, ?_⟩
  · -- row 24 is none of the 24 rows
    have hlt : (con.terms 0).screenY < numRows := hin.2.2.2
    rw [hy] at hlt
    exact absurd hlt (by decide)
  · rw [cursorCell, hx, hy]
    rfl

end Console

end Ece391
