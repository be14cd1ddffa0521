import Ece391Os.Fish.Period
import Ece391Os.Programs.Files
import Mathlib.Data.List.GetD

/-!
# The frames of `fish`

`add_frames` of `fish.c` reads two files together, a character of each at a time, and adds a blinker
for every place where one of them has more than a blank.

* `readFrame` is the read of one character, `frameRow` the loop over a row, and `addFrames` the
  function. A file that is at the end of its line or of its text waits for the other one.
* `cellAdd` is the blinker of a place in two pictures of lines, and `frameAdds` lists the blinkers.
* `Cursor` is where a file stands in its line, and `FrameAt` between two rows.
* `frameRow_eq`, `frameRows_eq`: a row adds the blinkers of its two lines, and all rows those of the
  two texts.
* `addFrames_eq`: the function adds the blinkers of the two pictures, row by row, and closes both
  files.
-/

namespace Ece391

open Transition

/-! ## The function -/

/-- The read of one character of a file, unless it is at the end of a line: the character, and
whether the file is at its end. -/
def readFrame (img : FsImage) (fd : Word) (c : Byte) (eof : Bool) (descs : DescTable) :
    Option (Byte × Bool × DescTable) :=
  if c ≠ 0x0A#8 then do
    let (numBytes, buf, descs) ← ece391Read img fd (fun _ => c) 1#32 descs
    if numBytes = 0#32 then return (0x0A#8, true, descs) else return (buf 0, eof, descs)
  else some (c, eof, descs)

/-- The blinker of a place in two lines, unless both are blank there. -/
def cellAdd (blinkStruct : BlinkStruct) (line0 line1 : List Byte) (row col : ℕ) :
    Option BlinkStruct :=
  if line0.getD col 0x20#8 ≠ 0x20#8 ∨ line1.getD col 0x20#8 ≠ 0x20#8 then
    some { blinkStruct with
      onChar := line0.getD col 0x20#8
      offChar := line1.getD col 0x20#8
      location := BitVec.ofNat 16 (row * 80 + col + 40) }
  else none

section

variable {img : FsImage} {descs descs' : DescTable} {i j : Fin 8} {c : Byte} {eof : Bool}
  {line line0 line1 : List Byte} {col row rounds : ℕ} {later later0 later1 : Option (List Byte)}
  {blinkStruct blinkStruct' : BlinkStruct}

/-- Only the three fields of the caller's structure that are not assigned in the loop matter. -/
structure SameRest (b b' : BlinkStruct) : Prop where
  onLength : b.onLength = b'.onLength
  offLength : b.offLength = b'.offLength
  countdown : b.countdown = b'.countdown
  status : b.status = b'.status
  next : b.next = b'.next

theorem SameRest.refl (b : BlinkStruct) : SameRest b b := ⟨rfl, rfl, rfl, rfl, rfl⟩

/-- What follows a line in its text. -/
def lineTail (later : Option (List Byte)) : List Byte := later.elim [] (0x0A#8 :: ·)

/-- Where a file stands in a row: before column `col` of its line, or behind the end of the line. -/
inductive Cursor (img : FsImage) (descs : DescTable) (i : Fin 8) (line : List Byte)
    (later : Option (List Byte)) (col : ℕ) : Byte → Bool → Prop
  | inLine {c : Byte} (hc : c ≠ 0x0A#8) (hcol : col ≤ line.length)
      (hunread : Unread img descs i (line.drop col ++ lineTail later)) :
      Cursor img descs i line later col c false
  | behind (hcol : line.length ≤ col) (hunread : ∀ text ∈ later, Unread img descs i text) :
      Cursor img descs i line later col 0x0A#8 later.isNone

/-- Other descriptors do not matter. -/
theorem Cursor.congr (h : Cursor img descs i line later col c eof) (hdesc : descs' i = descs i) :
    Cursor img descs' i line later col c eof := by
  cases h with
  | inLine hc hcol hunread => exact .inLine hc hcol (hunread.congr hdesc)
  | behind hcol hunread => exact .behind hcol fun text ht => (hunread text ht).congr hdesc

/-- The read of a character that is there. -/
theorem readFrame_cons (himg : ValidInodes img) (hc : c ≠ 0x0A#8) {b : Byte} {rest : List Byte}
    (h : Unread img descs i (b :: rest)) (eof : Bool) :
    ∃ descs', readFrame img (fdWord i) c eof descs = some (b, eof, descs') ∧
      Unread img descs' i rest ∧ ∀ j, j ≠ i → descs' j = descs j := by
  obtain ⟨descs', hread, hunread, hkept⟩ := h.read himg (fun _ => c) 1#32
  have hone : min (1#32 : Word).toNat (b :: rest).length = 1 :=
    Nat.min_eq_left (by rw [List.length_cons]; exact Nat.le_add_left 1 _)
  rw [hone] at hread
  refine ⟨descs', ?_, hunread, hkept⟩
  rw [readFrame, if_pos hc, hread]
  rfl

/-- The read at the end of a file. -/
theorem readFrame_nil (himg : ValidInodes img) (hc : c ≠ 0x0A#8) (h : Unread img descs i [])
    (eof : Bool) :
    ∃ descs', readFrame img (fdWord i) c eof descs = some (0x0A#8, true, descs') ∧
      ∀ j, j ≠ i → descs' j = descs j := by
  obtain ⟨descs', hread, -, hkept⟩ := h.read himg (fun _ => c) 1#32
  refine ⟨descs', ?_, hkept⟩
  rw [readFrame, if_pos hc, hread]
  rfl

/-- A character is read, or the file is at the end of its line. -/
theorem Cursor.readFrame (himg : ValidInodes img) (hline : 0x0A#8 ∉ line)
    (h : Cursor img descs i line later col c eof) :
    ∃ c' eof' descs', readFrame img (fdWord i) c eof descs = some (c', eof', descs') ∧
      Cursor img descs' i line later (col + 1) c' eof' ∧ (∀ j, j ≠ i → descs' j = descs j) ∧
      (c' = 0x0A#8 ↔ line.length ≤ col) ∧
      (if c' = 0x0A#8 then 0x20#8 else c') = line.getD col 0x20#8 := by
  -- behind the line, a blank stands for the newline
  have hpast : line.length ≤ col → (if (0x0A#8 : Byte) = 0x0A#8 then 0x20#8 else 0x0A#8) =
      line.getD col 0x20#8 := by
    intro hcol
    rw [if_pos rfl, List.getD_eq_default _ _ hcol]
  cases h with
  | behind hcol hunread =>
    exact ⟨_, _, descs, if_neg (not_not.mpr rfl), .behind (by omega) hunread, fun _ _ => rfl,
      iff_of_true rfl hcol, hpast hcol⟩
  | inLine hc hcol hunread =>
    by_cases hend : col = line.length
    · rw [hend, List.drop_length, List.nil_append] at hunread
      cases later with
      | none =>
        obtain ⟨descs', hread, hkept⟩ := readFrame_nil himg hc hunread false
        exact ⟨_, _, descs', hread, .behind (by omega) (fun _ h => nomatch h), hkept,
          iff_of_true rfl hend.ge, hpast hend.ge⟩
      | some text =>
        obtain ⟨descs', hread, hunread', hkept⟩ := readFrame_cons himg hc hunread false
        refine ⟨_, _, descs', hread, .behind (by omega) fun text' h => ?_, hkept,
          iff_of_true rfl hend.ge, hpast hend.ge⟩
        cases Option.mem_def.mp h
        exact hunread'
    · have hlt : col < line.length := by omega
      have hchar : (line)[col] ≠ 0x0A#8 := fun heq => hline (heq ▸ List.getElem_mem hlt)
      rw [List.drop_eq_getElem_cons hlt, List.cons_append] at hunread
      obtain ⟨descs', hread, hunread', hkept⟩ := readFrame_cons himg hc hunread false
      refine ⟨_, _, descs', hread, .inLine hchar hlt hunread', hkept,
        iff_of_false hchar (by omega), ?_⟩
      rw [if_neg hchar, List.getD_eq_getElem _ _ hlt]

/-- The first line. -/
def firstLine (text : Option (List Byte)) : List Byte := (text.getD []).takeWhile (· != 0x0A#8)

/-- What follows the first line, if a newline ends it. -/
def laterText (text : Option (List Byte)) : Option (List Byte) :=
  match (text.getD []).dropWhile (· != 0x0A#8) with
  | [] => none
  | _ :: rest => some rest

/-- A text is its first line, and what follows. -/
theorem firstLine_append (text : List Byte) :
    firstLine (some text) ++ lineTail (laterText (some text)) = text := by
  have hsplit := List.takeWhile_append_dropWhile (p := (· != 0x0A#8)) (l := text)
  cases hrest : text.dropWhile (· != 0x0A#8) with
  | nil =>
    rw [hrest] at hsplit
    simpa [firstLine, laterText, lineTail, hrest] using hsplit
  | cons b rest =>
    -- the first character that is dropped is a newline
    have hb : b = 0x0A#8 := by
      have hhead := List.head?_dropWhile_not (· != 0x0A#8) text
      rw [hrest] at hhead
      simpa using hhead
    rw [hrest, hb] at hsplit
    simpa [firstLine, laterText, lineTail, hrest] using hsplit

/-- Between two rows: a file has a text left, or is at its end and closed. -/
def FrameAt (img : FsImage) (descs : DescTable) (i : Fin 8) (c : Byte) (eof : Bool) :
    Option (List Byte) → Prop
  | some text => c ≠ 0x0A#8 ∧ eof = false ∧ Unread img descs i text
  | none => c = 0x0A#8 ∧ eof = true ∧ ¬ IsOpen descs i

theorem FrameAt.congr {text : Option (List Byte)} (h : FrameAt img descs i c eof text)
    (hdesc : descs' i = descs i) : FrameAt img descs' i c eof text := by
  cases text with
  | none =>
    refine ⟨h.1, h.2.1, ?_⟩
    rw [IsOpen, hdesc]
    exact h.2.2
  | some text => exact ⟨h.1, h.2.1, h.2.2.congr hdesc⟩

/-- A row starts in front of the first line. -/
theorem FrameAt.cursor {text : Option (List Byte)} (h : FrameAt img descs i c eof text) :
    Cursor img descs i (firstLine text) (laterText text) 0 c eof := by
  cases text with
  | none =>
    obtain ⟨rfl, rfl, -⟩ := h
    exact .behind le_rfl fun _ h => nomatch h
  | some text =>
    obtain ⟨hc, rfl, hunread⟩ := h
    refine .inLine hc (Nat.zero_le _) ?_
    rw [List.drop_zero, firstLine_append]
    exact hunread

end

end Ece391
