import Ece391Os.Fish.Main
import Ece391Os.Programs.Counter

/-!
# Ping-pong

`ece391pingpong.c`. The program writes a line for every tick of the clock: a letter that moves
between two walls, and changes when it is back at the left one.

* `Walls` is what the frames leave in the buffer, and `pingpongFrame_eq` says what a frame writes.
* `pingpongMain_launched`: however long it runs, the frame of every tick has one letter, which moves
  by one column, and the letters follow each other from `A` to `Z` and from `A` again.
-/

namespace Ece391

/-! ## The program -/

/-- The walls, and what is outside of them. -/
def pingpongWalls (buf : Buffer) : Buffer :=
  let buf := buf.overwrite (fun _ => 0x20#8) 81
  let buf := Function.update buf 80 0#8
  let buf := Function.update buf 79 0x0A#8
  let buf := Function.update buf 78 0x7C#8
  Function.update buf 1 0x7C#8

/-- The loop that clears what is between the walls. -/
def clearInner (buf : Buffer) : Buffer := fun a => if 2 ≤ a ∧ a < 78 then 0x20#8 else buf a

/-- A frame: the letter in column `j`, and a wait for the clock. -/
def pingpongFrame (img : FsImage) (rtcFd : Word) (curchar : Byte) (j : ℕ) (buf : Buffer)
    (descs : DescTable) : Option (Buffer × DescTable × List Byte) := do
  let buf := Function.update (clearInner buf) j curchar
  let line ← putString buf descs
  let (_, _, descs) ← ece391Read img rtcFd (fun _ => 0#8) 4#32 descs
  return (buf, descs, line)

/-- One of the two loops over the columns. -/
def pingpongPass (img : FsImage) (rtcFd : Word) (curchar : Byte) :
    List ℕ → Buffer → DescTable → Option (Buffer × DescTable × List (List Byte))
  | [], buf, descs => some (buf, descs, [])
  | j :: js, buf, descs => do
    let (buf, descs, line) ← pingpongFrame img rtcFd curchar j buf descs
    let (buf, descs, lines) ← pingpongPass img rtcFd curchar js buf descs
    return (buf, descs, line :: lines)

/-- A number of rounds of the endless loop: the lines that are written. -/
def pingpongLoop (img : FsImage) (rtcFd : Word) :
    ℕ → Byte → Buffer → DescTable → Option (List (List Byte))
  | 0, _, _, _ => some []
  | rounds + 1, curchar, buf, descs => do
    let (buf, descs, out) ← pingpongPass img rtcFd curchar (List.range' 2 76) buf descs
    let (buf, descs, back) ← pingpongPass img rtcFd curchar (List.range' 2 76).reverse buf descs
    let curchar := if curchar = 0x5A#8 then 0x41#8 else curchar + 1#8
    let rest ← pingpongLoop img rtcFd rounds curchar buf descs
    return out ++ back ++ rest

/-- `main`, up to a number of rounds. -/
def pingpongMain (img : FsImage) (descs : DescTable) (buf : Buffer) (rounds : ℕ) :
    Option (List (List Byte)) := do
  let buf := pingpongWalls buf
  let (rtcFd, descs) ← ece391Open img (cString "rtc" fun _ => 0#8) descs
  -- the frequency of the clock
  let (_, descs) ← writeCall rtcFd descs
  pingpongLoop img rtcFd rounds 0x41#8 buf descs

/-! ## A frame -/

/-- A line with a letter in a column between the walls. -/
def ballLine (letter : Byte) (column : ℕ) : List Byte :=
  (List.range 80).map fun k =>
    if k = column then letter
    else if k = 1 ∨ k = 78 then 0x7C#8
    else if k = 79 then 0x0A#8
    else 0x20#8

/-- The buffer has the walls, whatever is between them. -/
structure Walls (buf : Buffer) : Prop where
  margin : buf 0 = 0x20#8
  left : buf 1 = 0x7C#8
  right : buf 78 = 0x7C#8
  newline : buf 79 = 0x0A#8
  nul : buf 80 = 0#8

section

variable {buf : Buffer} {letter : Byte} {column : ℕ} {img : FsImage} {descs : DescTable} {i : Fin 8}

theorem walls_pingpongWalls (buf : Buffer) : Walls (pingpongWalls buf) := ⟨rfl, rfl, rfl, rfl, rfl⟩

/-- Drawing a letter keeps the walls. -/
theorem Walls.draw (h : Walls buf) (hle : 2 ≤ column) (hlt : column < 78) :
    Walls (Function.update (clearInner buf) column letter) := by
  have hkept : ∀ a, a < 2 ∨ 78 ≤ a →
      Function.update (clearInner buf) column letter a = buf a := by
    intro a ha
    rw [Function.update_of_ne (by omega), clearInner, if_neg (by omega)]
  exact ⟨(hkept 0 (by omega)).trans h.margin, (hkept 1 (by omega)).trans h.left,
    (hkept 78 (by omega)).trans h.right, (hkept 79 (by omega)).trans h.newline,
    (hkept 80 (by omega)).trans h.nul⟩

/-- The string in the buffer of a frame. -/
theorem Walls.spells (h : Walls buf) (hle : 2 ≤ column) (hlt : column < 78)
    (hletter : letter ≠ 0#8) :
    Spells (Function.update (clearInner buf) column letter) (ballLine letter column) := by
  have hdrawn : Walls (Function.update (clearInner buf) column letter) := h.draw hle hlt
  have hlen : (ballLine letter column).length = 80 := by
    rw [ballLine, List.length_map, List.length_range]
  apply spells_of_bytes
  · intro hmem
    obtain ⟨k, -, hk⟩ := List.mem_map.mp hmem
    split_ifs at hk
    · exact hletter hk
    all_goals exact absurd hk (by decide)
  · omega
  · intro j hj
    have hj80 : j < 80 := hlen ▸ hj
    simp only [ballLine, List.getElem_map, List.getElem_range]
    split_ifs with hcolumn hwall hend
    · rw [hcolumn, Function.update_self]
    · rcases hwall with rfl | rfl
      · exact hdrawn.left
      · exact hdrawn.right
    · rw [hend]
      exact hdrawn.newline
    · rw [Function.update_of_ne hcolumn, clearInner]
      split_ifs with hinner
      · rfl
      · -- only the margin is left
        obtain rfl : j = 0 := by omega
        exact h.margin
  · rw [hlen]
    exact hdrawn.nul

/-- A frame writes a line and waits. -/
theorem pingpongFrame_eq (himg : ValidInodes img) (hclock : Unread img descs i [])
    (hstdout : descs 1 = terminalDesc) (h : Walls buf) (hle : 2 ≤ column) (hlt : column < 78)
    (hletter : letter ≠ 0#8) :
    ∃ buf' descs', pingpongFrame img (fdWord i) letter column buf descs =
        some (buf', descs', ballLine letter column) ∧
      Walls buf' ∧ Unread img descs' i [] ∧ descs' 1 = terminalDesc := by
  have hput : putString (Function.update (clearInner buf) column letter) descs =
      some (ballLine letter column) := by
    apply putString_eq hstdout (h.spells hle hlt hletter)
    rw [ballLine, List.length_map, List.length_range]
    decide
  obtain ⟨descs', hread, hunread, hkept⟩ := hclock.read himg (fun _ => 0#8) 4#32
  refine ⟨Function.update (clearInner buf) column letter, descs', ?_, h.draw hle hlt, hunread,
    (hkept 1 hclock.ne_one.symm).trans hstdout⟩
  rw [pingpongFrame]
  simp only [hput, hread, Option.bind_eq_bind, Option.bind_some]
  rfl

/-- A loop over columns between the walls writes a line for each. -/
theorem pingpongPass_eq (himg : ValidInodes img) (hclock : Unread img descs i [])
    (hstdout : descs 1 = terminalDesc) (h : Walls buf) {js : List ℕ}
    (hjs : ∀ j ∈ js, 2 ≤ j ∧ j < 78) (hletter : letter ≠ 0#8) :
    ∃ buf' descs', pingpongPass img (fdWord i) letter js buf descs =
        some (buf', descs', js.map (ballLine letter)) ∧
      Walls buf' ∧ Unread img descs' i [] ∧ descs' 1 = terminalDesc := by
  induction js generalizing buf descs with
  | nil => exact ⟨buf, descs, rfl, h, hclock, hstdout⟩
  | cons j js ih =>
    obtain ⟨⟨hle, hlt⟩, hrest⟩ := List.forall_mem_cons.mp hjs
    obtain ⟨buf₁, descs₁, hframe, hwalls₁, hclock₁, hstdout₁⟩ :=
      pingpongFrame_eq himg hclock hstdout h hle hlt hletter
    obtain ⟨buf', descs', hpass, hwalls, hclock', hstdout'⟩ := ih hclock₁ hstdout₁ hwalls₁ hrest
    refine ⟨buf', descs', ?_, hwalls, hclock', hstdout'⟩
    rw [pingpongPass]
    simp only [hframe, hpass, Option.bind_eq_bind, Option.bind_some]
    rfl

end

/-! ## A run -/

/-- The letter of a round. -/
def ballLetter (round : ℕ) : Byte := BitVec.ofNat 8 (0x41 + round % 26)

/-- The column of a tick of a round: from the left wall to the right one and back. -/
def ballColumn (t : ℕ) : ℕ := if t < 76 then t + 2 else 153 - t

theorem ballLetter_succ (round : ℕ) :
    (if ballLetter round = 0x5A#8 then 0x41#8 else ballLetter round + 1#8) =
      ballLetter (round + 1) := by
  have hnext : ∀ r < 26, (if BitVec.ofNat 8 (0x41 + r) = 0x5A#8 then 0x41#8
      else BitVec.ofNat 8 (0x41 + r) + 1#8) = BitVec.ofNat 8 (0x41 + (r + 1) % 26) := by
    decide
  have hmod : (round + 1) % 26 = (round % 26 + 1) % 26 := (Nat.mod_add_mod round 26 1).symm
  rw [ballLetter, ballLetter, hmod]
  exact hnext _ (Nat.mod_lt _ (by decide))

theorem ballLetter_ne_zero (round : ℕ) : ballLetter round ≠ 0#8 := by
  have hall : ∀ r < 26, BitVec.ofNat 8 (0x41 + r) ≠ 0#8 := by decide
  exact hall _ (Nat.mod_lt _ (by decide))

/-- The columns of a round. -/
theorem getElem?_columns {t : ℕ} (ht : t < 152) :
    (List.range' 2 76 ++ (List.range' 2 76).reverse)[t]? = some (ballColumn t) := by
  rw [ballColumn]
  split_ifs with hout
  · rw [List.getElem?_append_left (by rwa [List.length_range']), List.getElem?_range' hout]
    congr 1
    omega
  · have hlen : (List.range' 2 76).length ≤ t := by rw [List.length_range']; omega
    have hback : t - 76 < (List.range' 2 76).length := by rw [List.length_range']; omega
    rw [List.getElem?_append_right hlen, List.length_range', List.getElem?_reverse hback,
      List.length_range', List.getElem?_range' (by omega)]
    congr 1
    omega

variable {img : FsImage} {descs : DescTable} {i : Fin 8} {buf : Buffer}

/-- The rounds from a number on. -/
theorem pingpongLoop_eq (himg : ValidInodes img) (hclock : Unread img descs i [])
    (hstdout : descs 1 = terminalDesc) (h : Walls buf) (rounds first : ℕ) :
    ∃ lines, pingpongLoop img (fdWord i) rounds (ballLetter first) buf descs = some lines ∧
      lines.length = 152 * rounds ∧
      ∀ t < 152 * rounds, lines[t]? =
        some (ballLine (ballLetter (first + t / 152)) (ballColumn (t % 152))) := by
  induction rounds generalizing first buf descs with
  | zero => exact ⟨[], rfl, rfl, fun t ht => absurd ht t.not_lt_zero⟩
  | succ rounds ih =>
    have hcolumns : ∀ j ∈ List.range' 2 76, 2 ≤ j ∧ j < 78 := fun j hj =>
      List.mem_range'_1.mp hj
    have hletter := ballLetter_ne_zero first
    obtain ⟨buf₁, descs₁, hout, hwalls₁, hclock₁, hstdout₁⟩ :=
      pingpongPass_eq himg hclock hstdout h hcolumns hletter
    obtain ⟨buf₂, descs₂, hback, hwalls₂, hclock₂, hstdout₂⟩ :=
      pingpongPass_eq himg hclock₁ hstdout₁ hwalls₁
        (fun j hj => hcolumns j (List.mem_reverse.mp hj)) hletter
    obtain ⟨rest, hrest, hlen, hlines⟩ := ih hclock₂ hstdout₂ hwalls₂ (first + 1)
    set columns := List.range' 2 76 ++ (List.range' 2 76).reverse with hcols
    have hround : (columns.map (ballLine (ballLetter first))).length = 152 := by
      rw [hcols, List.length_map, List.length_append, List.length_reverse, List.length_range']
    refine ⟨columns.map (ballLine (ballLetter first)) ++ rest, ?_, ?_, ?_⟩
    · rw [pingpongLoop]
      simp only [hout, hback, ballLetter_succ, hrest, Option.bind_eq_bind, Option.bind_some]
      rw [hcols, List.map_append]
      rfl
    · rw [List.length_append, hround, hlen]
      omega
    · intro t ht
      by_cases hfirst : t < 152
      · -- the first round
        rw [List.getElem?_append_left (hround ▸ hfirst), List.getElem?_map, hcols,
          getElem?_columns hfirst, Nat.div_eq_of_lt hfirst, Nat.mod_eq_of_lt hfirst]
        rfl
      · -- a later one
        have hdiv : first + 1 + (t - 152) / 152 = first + t / 152 := by omega
        have hmod : (t - 152) % 152 = t % 152 := by omega
        rw [List.getElem?_append_right (by omega), hround, hlines (t - 152) (by omega), hdiv, hmod]

/-- However many rounds a launched program has made, the frame of every tick has the letter of its
round in the column of the tick. -/
theorem pingpongMain_launched {env : Env} {command stack : Buffer} {k k' : Kernel} {eip : Word}
    (himg : ValidInodes env.img)
    (hlaunch : execute env command stack k = some (.userMode eip, k')) {e : ℕ}
    (hrtc : env.img.FirstNamed (ascii "rtc") e) (htype : (env.img.dentry e).filetype = 0#32)
    (buf : Buffer) (rounds : ℕ) :
    ∃ lines, pingpongMain env.img (currDescs k') buf rounds = some lines ∧
      lines.length = 152 * rounds ∧
      ∀ t < 152 * rounds, lines[t]? =
        some (ballLine (ballLetter (t / 152)) (ballColumn (t % 152))) := by
  obtain ⟨old, hdescs⟩ := currDescs_launched hlaunch
  obtain ⟨descs, hopen, hclock, hkept⟩ := open_clock hrtc htype old
  obtain ⟨r, hwrite⟩ := hclock.exists_writeCall
  have hstdout : descs 1 = terminalDesc := hkept 1 (by decide)
  obtain ⟨lines, hloop, hlen, hlines⟩ :=
    pingpongLoop_eq himg hclock hstdout (walls_pingpongWalls buf) rounds 0
  refine ⟨lines, ?_, hlen, fun t ht => ?_⟩
  · rw [pingpongMain, hdescs]
    simp only [hopen, hwrite, Option.bind_eq_bind, Option.bind_some]
    exact hloop
  · rw [hlines t ht, Nat.zero_add]

/-- The sample image has a clock. -/
theorem pingpongMain_launched_sample : ∃ k' lines,
    pingpongMain diskEnv.img (currDescs k') (fun _ => 0#8) 30 = some lines ∧
      lines.length = 152 * 30 ∧
      ∀ t < 152 * 30, lines[t]? =
        some (ballLine (ballLetter (t / 152)) (ballColumn (t % 152))) := by
  obtain ⟨k, k', hlaunch⟩ := exists_launch_shellWithFile
  have himg : ValidInodes diskEnv.img := validInodes_diskImage
  have hrtc : diskEnv.img.FirstNamed (ascii "rtc") 2 :=
    ⟨by decide +kernel, by decide +kernel, by decide +kernel⟩
  exact ⟨k', pingpongMain_launched himg hlaunch hrtc (by decide +kernel) (fun _ => 0#8) 30⟩

end Ece391
