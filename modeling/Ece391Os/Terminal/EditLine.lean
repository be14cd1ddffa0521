import Ece391Os.Terminal.Echo
import Ece391Os.Terminal.Editor

/-!
# Line editing on the screen

While a read is on, what has been typed stands in the buffer and in the cells from the cursor of the
prompt on. Echo, wrap, scroll and Backspace each move the cursor by their own formula.

* `Shows start scrolls page₀ page typed`: the cells from `start` on show what has been typed, and
  the cells before it what they have shown on `page₀`, scrolled up.
* `OnScreen` adds the cursor; `OnScreen.input` is one input byte that does not end the line.
* `MatchesEditor`: buffer, cursor and cells of the terminal are those of the line `typedLine`.
* `matchesEditor_and_stays`: so they are after every sequence of input bytes until the line ends,
  and then nothing changes any more.
-/

namespace Ece391

open Transition

/-! ## The page -/

/-- An operation on the page of the terminal on screen. -/
def drawOp (p : Page) : VideoOp → Page
  | .scroll => scrollPage p
  | .cell offset c =>
    Function.update (Function.update p (2 * offset).toNat c) (2 * offset + 1).toNat 7#8

/-- What has been typed stands in the cells from `start` on. The cells before it are those of
`page₀`, whose characters have been scrolled up. -/
structure Shows (start scrolls : ℕ) (page₀ page : Page) (typed : List Byte) : Prop where
  typed : ∀ j (hj : j < typed.length), page (2 * (start + j)) = typed[j]
  before : ∀ c < start, page (2 * c) = page₀ (2 * (c + 80 * scrolls)) ∧
    page (2 * c + 1) = page₀ (2 * c + 1)

namespace Shows

variable {start scrolls : ℕ} {page₀ page : Page} {typed : List Byte} {off : ℤ} {c : Byte}

/-- A character drawn in a cell that is neither before the line nor in it. -/
theorem draw (h : Shows start scrolls page₀ page typed) (hoff : (start + typed.length : ℕ) ≤ off) :
    Shows start scrolls page₀ (drawOp page (.cell off c)) typed where
  typed j hj := by
    -- neither byte of the cell belongs to the line
    rw [drawOp, Function.update_of_ne (by omega), Function.update_of_ne (by omega)]
    exact h.typed j hj
  before i hi := by
    rw [drawOp, Function.update_of_ne (by omega), Function.update_of_ne (by omega),
      Function.update_of_ne (by omega), Function.update_of_ne (by omega)]
    exact h.before i hi

theorem push (h : Shows start scrolls page₀ page typed) (hoff : off = (start + typed.length : ℕ)) :
    Shows start scrolls page₀ (drawOp page (.cell off c)) (typed ++ [c]) where
  typed j hj := by
    by_cases hlast : j < typed.length
    · -- the cells of the line are kept, and the next one is drawn
      rw [List.getElem_append_left hlast]
      exact (h.draw (c := c) hoff.ge).typed j hlast
    · obtain rfl : j = typed.length := by
        rw [List.length_append, List.length_singleton] at hj
        omega
      have hcell : 2 * (start + typed.length) = (2 * off).toNat := by omega
      rw [List.getElem_concat_length rfl, drawOp, Function.update_of_ne (by omega), hcell,
        Function.update_self]
  before := (h.draw hoff.ge).before

theorem pop (h : Shows start scrolls page₀ page typed) (hne : typed ≠ [])
    (hoff : off = (start + typed.length : ℕ) - 1) :
    Shows start scrolls page₀ (drawOp page (.cell off c)) typed.dropLast := by
  have hpos : 0 < typed.length := List.length_pos_iff.mpr hne
  -- the line without its last cell, which is the one that is drawn
  have hshort : Shows start scrolls page₀ page typed.dropLast := by
    refine ⟨fun j hj => ?_, h.before⟩
    rw [List.getElem_dropLast]
    exact h.typed j _
  apply hshort.draw
  rw [List.length_dropLast]
  omega

/-- A scroll moves the line and what is before it up by a row. -/
theorem scroll (h : Shows start scrolls page₀ page typed) (hstart : 80 ≤ start)
    (hend : start + typed.length ≤ 1920) :
    Shows (start - 80) (scrolls + 1) page₀ (scrollPage page) typed where
  typed j hj := by
    have hcell : 2 * (start - 80 + j) + 160 = 2 * (start + j) := by omega
    rw [scrollPage_apply, if_pos (by omega), hcell]
    exact h.typed j hj
  before i hi := by
    -- the attribute byte of a cell is not moved
    have hcell : 2 * i + 160 = 2 * (i + 80) := by omega
    have hfrom : i + 80 + 80 * scrolls = i + 80 * (scrolls + 1) := by omega
    rw [scrollPage_apply, scrollPage_apply, if_pos (by omega), if_neg (by omega),
      if_neg (by omega), hcell]
    refine ⟨?_, (h.before i (by omega)).2⟩
    rw [(h.before (i + 80) (by omega)).1, hfrom]

end Shows

/-! ## The cursor -/

/-- The cursor stands behind what has been typed, on the screen. -/
structure OnScreen (start scrolls : ℕ) (page₀ : Page) (typed : List Byte) (term : Term)
    (page : Page) : Prop where
  column : 0 ≤ term.screenX ∧ term.screenX < 80
  row : 0 ≤ term.screenY ∧ term.screenY < 24
  cursor : 80 * term.screenY + term.screenX = (start + typed.length : ℕ)
  shows : Shows start scrolls page₀ page typed

namespace OnScreen

variable {start scrolls : ℕ} {page₀ page : Page} {typed : List Byte} {term : Term} {c : Byte}

/-- Backspace draws in the last cell of the line, and moves the cursor there, across the beginning
of a row too. -/
theorem backspace (h : OnScreen start scrolls page₀ typed term page)
    (hcnt : term.terminalCnt = typed.length) :
    OnScreen start scrolls page₀ typed.dropLast (backspaceKey term).term
        ((backspaceKey term).ops.foldl drawOp page) ∧
      (backspaceKey term).ops.count .scroll = 0 := by
  obtain ⟨⟨hx0, hx⟩, ⟨hy0, hy⟩, hcursor, hshows⟩ := h
  by_cases hnil : typed = []
  · subst hnil
    -- nothing to erase: the key does nothing
    have hzero : term.terminalCnt = 0 := hcnt
    rw [backspaceKey, if_pos hzero]
    exact ⟨⟨⟨hx0, hx⟩, ⟨hy0, hy⟩, hcursor, hshows⟩, rfl⟩
  · -- the column, the row, the cell of the cursor, and the cells of the line
    have hpos : 0 < typed.length := List.length_pos_iff.mpr hnil
    rw [backspaceKey, if_neg (by omega)]
    refine ⟨⟨?_, ?_, ?_, ?_⟩, rfl⟩
    · simp only [numCols]
      split_ifs <;> omega
    · simp only
      split_ifs <;> omega
    · simp only [numCols, List.length_dropLast]
      split_ifs <;> omega
    · apply hshows.pop hnil
      simp only [numCols]
      omega

/-- A character is drawn behind the line. At the end of a row the cursor wraps, and on the last row
the page scrolls before the character is drawn. -/
theorem char (h : OnScreen start scrolls page₀ typed term page)
    (hcnt : term.terminalCnt = typed.length) (hshort : typed.length < 128) :
    ∃ up, (charKey false c term).ops.count .scroll = up ∧ 80 * up ≤ start ∧
      OnScreen (start - 80 * up) (scrolls + up) page₀ (typed ++ [c]) (charKey false c term).term
        ((charKey false c term).ops.foldl drawOp page) := by
  obtain ⟨⟨hx0, hx⟩, ⟨hy0, hy⟩, hcursor, hshows⟩ := h
  have hroom : term.terminalCnt ≤ bufSize - 1 := by
    rw [bufSize]
    omega
  rw [charKey, if_pos hroom]
  by_cases hwraps : term.screenX + 1 = 80
  · by_cases hbottom : term.screenY + 1 = numRows
    · -- the line moves up by a row, and the character comes at the end of the row above
      have hlast : start + typed.length = 1919 := by
        rw [numRows] at hbottom
        omega
      refine ⟨1, ?_, by omega, ?_⟩
      · simp [hwraps, hbottom]
      · have hscroll := hshows.scroll (by omega) (by omega)
        simp only [hwraps, hbottom, and_self, if_true, List.foldl_append, List.foldl_cons,
          List.foldl_nil, Bool.false_eq_true, if_false]
        refine ⟨by simp, ⟨hy0, hy⟩, ?_, hscroll.push ?_⟩
        · rw [numRows] at hbottom
          rw [List.length_append, List.length_singleton]
          simp only
          omega
        · rw [numCols]
          rw [numRows] at hbottom
          omega
    · refine ⟨0, ?_, by omega, ?_⟩
      · simp [hwraps, hbottom]
      · simp only [hwraps, hbottom, and_false, if_true, if_false, List.nil_append, List.foldl_cons,
          List.foldl_nil, Bool.false_eq_true]
        rw [numRows] at hbottom
        refine ⟨by simp, ⟨by simp only; omega, by simp only; omega⟩, ?_, hshows.push ?_⟩
        · rw [List.length_append, List.length_singleton]
          simp only
          omega
        · rw [numCols]
          omega
  · refine ⟨0, ?_, by omega, ?_⟩
    · simp [hwraps]
    · simp only [hwraps, false_and, if_false, List.nil_append, List.foldl_cons, List.foldl_nil,
        Bool.false_eq_true]
      refine ⟨⟨by simp only; omega, by simp only; omega⟩, ⟨hy0, hy⟩, ?_, hshows.push ?_⟩
      · rw [List.length_append, List.length_singleton]
        simp only
        omega
      · rw [numCols]
        omega

/-- An input byte that does not end the line. -/
theorem input {line : Line} (h : OnScreen start scrolls page₀ line.typed term page)
    (htracks : Tracks 128 line term.lineBuffer) (hopen : line.ended = none) (hzero : c ≠ 0#8)
    (h255 : c ≠ 255#8) (hgoes : (line.input c).ended = none) :
    ∃ up, (inputEffect false c term).ops.count .scroll = up ∧ 80 * up ≤ start ∧
      OnScreen (start - 80 * up) (scrolls + up) page₀ (line.input c).typed
        (inputEffect false c term).term ((inputEffect false c term).ops.foldl drawOp page) := by
  have hcnt : term.terminalCnt = line.typed.length := htracks.cnt (Or.inl hopen)
  have hshort := htracks.short (Or.inl hopen)
  have hread : term.terminalReadOn = true := htracks.readOn_of_open hopen
  rw [Line.input, if_neg hzero] at hgoes ⊢
  rw [inputEffect, if_neg h255, if_pos ⟨hzero, hread⟩, keyEffect]
  by_cases henter : c = 0x0A#8
  · rw [if_pos henter] at hgoes
    -- Enter ends the line
    cases hgoes
  · rw [if_neg henter] at hgoes ⊢
    rw [if_neg henter]
    by_cases hback : c = 0x08#8
    · rw [if_pos hback, if_pos hback]
      -- the counter of a line that is not full does not come to 128
      have hfull : (backspaceKey term).term.terminalCnt ≠ bufSize := by
        rw [backspaceKey, bufSize]
        split_ifs <;> simp only <;> omega
      obtain ⟨hscreen, hscrolls⟩ := h.backspace hcnt
      rw [bufferFull, if_neg hfull]
      exact ⟨0, hscrolls, by omega, hscreen⟩
    · rw [if_neg hback] at hgoes ⊢
      rw [if_neg hback]
      rw [Line.push] at hgoes ⊢
      by_cases hlast : line.typed.length + 1 = 128
      · rw [if_pos hlast] at hgoes
        -- the character that fills the buffer ends the line
        cases hgoes
      · have hfull : (charKey false c term).term.terminalCnt ≠ bufSize := by
          rw [charKey, bufSize]
          split_ifs <;> simp only <;> omega
        rw [if_neg hlast, bufferFull, if_neg hfull]
        exact h.char hcnt hshort

/-- With the cursor on the screen an input byte draws inside the page. -/
theorem echoInPage (h : OnScreen start scrolls page₀ typed term page)
    (hcnt : term.terminalCnt = typed.length) : EchoInPage c term := by
  obtain ⟨⟨hx0, hx⟩, ⟨hy0, hy⟩, hcursor, -⟩ := h
  rw [EchoInPage]
  split_ifs
  · intro hne
    omega
  · intro _
    omega

end OnScreen

/-! ## Keys -/

/-- A decoded input byte arrives. -/
def inputStep (k : Kernel) (c : Byte) : Option Kernel := (kbdInput k c []).map Prod.snd

/-- What it does to the video memory. -/
def inputOps (k : Kernel) (c : Byte) : List VideoOp :=
  (inputEffect k.con.logingPassword c (k.con.terms k.con.termOnScreen)).ops

/-- The number of scrolls while a sequence of input bytes arrives. -/
def scrollCount (k : Kernel) (inputs : List Byte) : ℕ :=
  (trace inputStep inputOps k inputs).count .scroll

/-- The line that a sequence of input bytes types. -/
def typedLine (inputs : List Byte) : Line :=
  inputs.foldl (fun line c => line.press (.char c) false) Line.start

namespace Console

variable (con : Console) {e : KeyEffect}

/-- Operations inside the page of the terminal on screen, which is mapped at `VIDEO` too. -/
theorem exec_videoOps {ops : List VideoOp}
    (hops : ∀ off c, .cell off c ∈ ops → 0 ≤ off ∧ off < 2048) :
    exec (videoOp (videoPage con.termOnScreen)) con ops = some { con with
      vram := Function.update con.vram (videoPage con.termOnScreen)
        (ops.foldl drawOp (con.vram (videoPage con.termOnScreen))) } := by
  induction ops generalizing con with
  | nil =>
    rw [exec_nil, List.foldl_nil, Function.update_eq_self]
  | cons op ops ih =>
    have hrest := fun off c h => hops off c (List.mem_cons_of_mem op h)
    have hop : videoOp (videoPage con.termOnScreen) con op = some { con with
        vram := Function.update con.vram (videoPage con.termOnScreen)
          (drawOp (con.vram (videoPage con.termOnScreen)) op) } := by
      cases op with
      | scroll => rfl
      | cell off c =>
        obtain ⟨h0, hlt⟩ := hops off c List.mem_cons_self
        -- the character and the attribute byte, both inside the page
        rw [videoOp, pokeRead_eq (by omega) (by omega)]
        refine (pokeRead_eq (by omega) (by omega)).trans ?_
        simp [drawOp]
    have hnext := ih { con with
      vram := Function.update con.vram (videoPage con.termOnScreen)
        (drawOp (con.vram (videoPage con.termOnScreen)) op) } hrest
    rw [exec_cons_of_eq hop]
    refine hnext.trans ?_
    simp

/-- A key that draws inside the page. -/
theorem key_onScreen (hops : ∀ off c, .cell off c ∈ e.ops → 0 ≤ off ∧ off < 2048) :
    ∃ con', con.key (videoPage con.termOnScreen) e = some con' ∧
      con'.termOnScreen = con.termOnScreen ∧ con'.logingPassword = con.logingPassword ∧
      con'.terms con.termOnScreen = e.term ∧
      con'.vram (videoPage con.termOnScreen) =
        e.ops.foldl drawOp (con.vram (videoPage con.termOnScreen)) := by
  rw [key, exec_videoOps con hops]
  refine ⟨_, rfl, ?_⟩
  dsimp only
  split_ifs <;> simp [updateCursor, setTerm]

end Console

/-- A line is being read on the terminal on screen: the buffer holds what has been typed, and until
the line ends the screen shows it from cell `s` on, where it has been scrolled up. -/
structure Editing (s scrolls : ℕ) (t : TermId) (ps : Procs) (page₀ : Page) (line : Line)
    (k : Kernel) : Prop where
  procs : k.procs = ps
  mapped : k.procs.videoMapping = videoPage t
  termOnScreen : k.con.termOnScreen = t
  logingPassword : k.con.logingPassword = false
  tracks : Tracks 128 line (k.con.terms t).lineBuffer
  onScreen : line.ended = none → 80 * scrolls ≤ s ∧
    OnScreen (s - 80 * scrolls) scrolls page₀ line.typed (k.con.terms t)
      (k.con.vram (videoPage t))

namespace Editing

variable {s scrolls : ℕ} {t : TermId} {ps : Procs} {page₀ : Page} {line : Line} {k : Kernel}
  {c : Byte}

theorem sendEoi (h : Editing s scrolls t ps page₀ line k) :
    Editing s scrolls t ps page₀ line (k.sendEoi 1#32) :=
  ⟨h.procs, h.mapped, h.termOnScreen, h.logingPassword, h.tracks, h.onScreen⟩

/-- After the end of the line an input byte does nothing. -/
theorem inputStep_of_ended (h : Editing s scrolls t ps page₀ line k)
    (hended : line.ended.isSome) (h255 : c ≠ 255#8) :
    inputStep k c = some (k.sendEoi 1#32) ∧ inputOps k c = [] := by
  -- the flag of the read is set exactly until the line ends
  have hoff : (k.con.terms t).terminalReadOn = false := by
    have hread : (k.con.terms t).terminalReadOn = line.ended.isNone := h.tracks.readOn
    rw [hread]
    simpa using hended
  have hstill : ¬ (c ≠ 0#8 ∧ (k.con.terms k.con.termOnScreen).terminalReadOn = true) := by
    rw [h.termOnScreen, hoff]
    simp
  constructor
  · rw [inputStep, kbdInput, if_neg h255, if_neg hstill]
    rfl
  · rw [inputOps, inputEffect, if_neg h255, if_neg hstill]

/-- One input byte. -/
theorem step (h : Editing s scrolls t ps page₀ line k) (hzero : c ≠ 0#8) (h255 : c ≠ 255#8) :
    ∃ k', inputStep k c = some k' ∧ Editing s (scrolls + (inputOps k c).count .scroll) t ps page₀
      (line.press (.char c) false) k' := by
  cases hended : line.ended with
  | some e =>
    have hsome : line.ended.isSome = true := hended ▸ Option.isSome_some
    obtain ⟨hstep, hops⟩ := h.inputStep_of_ended hsome h255
    rw [Line.press, if_pos hsome, hops]
    exact ⟨_, hstep, h.sendEoi⟩
  | none =>
    obtain ⟨hs, hscreen⟩ := h.onScreen hended
    have hcnt : (k.con.terms t).terminalCnt = line.typed.length := h.tracks.cnt (Or.inl hended)
    have hshort := h.tracks.short (Or.inl hended)
    -- the cursor is on the screen, so all that is drawn is inside the page
    have hdraws : ∀ off b, .cell off b ∈ (inputEffect false c (k.con.terms t)).ops →
        0 ≤ off ∧ off < 2048 := fun off b hop =>
      (mem_ops_inputEffect (by omega) hop).2.2 off b rfl (hscreen.echoInPage hcnt)
    obtain ⟨con, hcon, honscreen, hpassword, hterm, hpage⟩ :=
      Console.key_onScreen k.con hdraws
    have hops : inputOps k c = (inputEffect false c (k.con.terms t)).ops := by
      rw [inputOps, h.logingPassword, h.termOnScreen]
    rw [h.termOnScreen] at hcon honscreen hterm hpage
    have hstep : inputStep k c = some ({ k with con }.sendEoi 1#32) := by
      rw [inputStep, kbdInput_eq, h.logingPassword, h.termOnScreen, h.mapped]
      simp only [hcon, Option.map_some]
    -- the line is not full, so any byte is admitted
    have hadmits : Admits 128 line (k.con.terms t).lineBuffer (.char c) := by
      refine fun _ => ⟨h255, ?_⟩
      have hlt : (k.con.terms t).lineBuffer.cnt < (128 : ℕ) := by
        rw [h.tracks.cnt (Or.inl hended)]
        omega
      exact Or.inr (Or.inr (Or.inr (Or.inr hlt)))
    have htracks := h.tracks.press hadmits false
    have hpress : line.press (.char c) false = line.input c := by
      rw [Line.press, if_neg (by simp [hended])]
    rw [hpress] at htracks ⊢
    refine ⟨_, hstep, h.procs, h.mapped, honscreen, hpassword.trans h.logingPassword, ?_,
      fun hgoes => ?_⟩
    · rw [Kernel.con_sendEoi]
      dsimp only
      rw [hterm, lineBuffer_inputEffect]
      exact htracks
    · obtain ⟨up, hup, hle, hnext⟩ := hscreen.input h.tracks hended hzero h255 hgoes
      have hstart : s - 80 * scrolls - 80 * up = s - 80 * (scrolls + up) := by omega
      rw [hops, hup, Kernel.con_sendEoi]
      dsimp only
      rw [hterm, hpage, ← hstart]
      exact ⟨by omega, hnext⟩

/-- A sequence of input bytes. -/
theorem run (h : Editing s scrolls t ps page₀ line k) {inputs : List Byte}
    (hinputs : ∀ c ∈ inputs, c ≠ 0#8 ∧ c ≠ 255#8) :
    ∃ k', exec inputStep k inputs = some k' ∧ Editing s (scrolls + scrollCount k inputs) t ps page₀
      (inputs.foldl (fun line c => line.press (.char c) false) line) k' := by
  induction inputs generalizing scrolls line k with
  | nil => exact ⟨k, rfl, h⟩
  | cons c inputs ih =>
    obtain ⟨hc, hinputs⟩ := List.forall_mem_cons.mp hinputs
    obtain ⟨k₁, hk₁, hstep⟩ := h.step hc.1 hc.2
    obtain ⟨k', hk', hrun⟩ := ih hstep hinputs
    -- the scrolls of the first byte, and those of the rest
    have hcount : scrollCount k (c :: inputs) =
        (inputOps k c).count .scroll + scrollCount k₁ inputs := by
      rw [scrollCount, trace, List.count_append, hk₁, Option.elim_some]
      rfl
    refine ⟨k', ?_, ?_⟩
    · rw [exec_cons_of_eq hk₁]
      exact hk'
    · rw [hcount, ← Nat.add_assoc]
      exact hrun

/-- After the end of the line a sequence of input bytes changes nothing but the interrupt
controllers. -/
theorem run_of_ended (h : Editing s scrolls t ps page₀ line k) (hended : line.ended.isSome)
    {inputs : List Byte} (hinputs : ∀ c ∈ inputs, c ≠ 0#8 ∧ c ≠ 255#8) :
    ∃ k', exec inputStep k inputs = some k' ∧ k' = { k with pic := k'.pic } := by
  induction inputs generalizing k with
  | nil => exact ⟨k, rfl, rfl⟩
  | cons c inputs ih =>
    obtain ⟨hc, hinputs⟩ := List.forall_mem_cons.mp hinputs
    obtain ⟨hstep, -⟩ := h.inputStep_of_ended hended hc.2
    rw [exec_cons_of_eq hstep]
    exact ih h.sendEoi hinputs

end Editing

/-- Buffer, cursor and cells of a terminal are those of the line, read from cell `s` on. -/
structure MatchesEditor (s scrolls : ℕ) (page₀ : Page) (typed : List Byte) (term : Term)
    (page : Page) : Prop where
  terminalCnt : term.terminalCnt = typed.length
  terminalBuf : ∀ j (hj : j < typed.length), term.terminalBuf j = typed[j]
  scrolled : 80 * scrolls ≤ s
  onScreen : OnScreen (s - 80 * scrolls) scrolls page₀ typed term page

/-- In every state a run from boot reaches with a read in progress on the terminal on screen, which
is the running one, every sequence of input bytes other than 0 and 255 edits the line as the editor
does, until it ends; and then nothing changes any more but the interrupt controllers. -/
theorem matchesEditor_and_stays {env : Env} {ram : BootRam} {r : ExecResult} {k₀ k : Kernel}
    {es : List SystemEvent} {term : Term} {page : Page} {s : ℕ} {inputs : List Byte}
    (hshell : ValidShell env.img) (hentry : entry env ram = some (r, k₀))
    (hrun : exec (systemStep env) k₀ es = some k) (hvisible : k.procs.currTerm = k.con.termOnScreen)
    (hterm : k.con.terms k.con.termOnScreen = term)
    (hpage : k.con.vram (videoPage k.con.termOnScreen) = page)
    (hread : term.terminalReadOn = true) (hcnt : term.terminalCnt = 0)
    (hpassword : k.con.logingPassword = false) (hcolumn : 0 ≤ term.screenX ∧ term.screenX < 80)
    (hrow : 0 ≤ term.screenY ∧ term.screenY < 24)
    (hs : (s : ℤ) = 80 * term.screenY + term.screenX)
    (hinputs : ∀ c ∈ inputs, c ≠ 0#8 ∧ c ≠ 255#8) :
    ∃ k', exec inputStep k inputs = some k' ∧
      ((typedLine inputs).ended = none →
        MatchesEditor s (scrollCount k inputs) page (typedLine inputs).typed
          (k'.con.terms k.con.termOnScreen) (k'.con.vram (videoPage k.con.termOnScreen))) ∧
      ((typedLine inputs).ended.isSome → ∀ more, (∀ c ∈ more, c ≠ 0#8 ∧ c ≠ 255#8) →
        ∃ k'', exec inputStep k' more = some k'' ∧ k'' = { k' with pic := k''.pic }) := by
  subst hterm hpage
  obtain ⟨⟨S, hS⟩, -⟩ := reachable_systemStep hshell hentry hrun
  -- before the first byte the line is empty, and starts at the cursor
  have hempty : OnScreen s 0 (k.con.vram (videoPage k.con.termOnScreen)) []
      (k.con.terms k.con.termOnScreen) (k.con.vram (videoPage k.con.termOnScreen)) :=
    ⟨hcolumn, hrow, hs.symm, fun j hj => absurd hj (Nat.not_lt_zero j), fun c _ => ⟨rfl, rfl⟩⟩
  have hstart : Editing s 0 k.con.termOnScreen k.procs
      (k.con.vram (videoPage k.con.termOnScreen)) Line.start k :=
    ⟨rfl, by rw [hS.videoMapping, hvisible], rfl, hpassword, Tracks.start hcnt hread,
      fun _ => ⟨Nat.zero_le s, hempty⟩⟩
  obtain ⟨k', hk', hediting⟩ := hstart.run hinputs
  rw [Nat.zero_add] at hediting
  refine ⟨k', hk', fun hopen => ?_, fun hended more hmore => hediting.run_of_ended hended hmore⟩
  obtain ⟨hle, hscreen⟩ := hediting.onScreen hopen
  exact ⟨hediting.tracks.cnt (Or.inl hopen), hediting.tracks.buf (Or.inl hopen), hle, hscreen⟩

/-- A prompt on the last row, and three characters, of which one is erased. -/
theorem matchesEditor_and_stays_sample :
    ∃ r k₀ k k', entry sampleEnv zeroRam = some (r, k₀) ∧
      exec (systemStep sampleEnv) k₀ [.read .armFlag, .read .resetCnt,
        .output (.write (List.replicate 23 0x0A#8 ++ ascii "391OS> "))] = some k ∧
      exec inputStep k [0x6C#8, 0x73#8, 0x08#8, 0x61#8] = some k' ∧
      MatchesEditor 1847 (scrollCount k [0x6C#8, 0x73#8, 0x08#8, 0x61#8])
        (k.con.vram (videoPage k.con.termOnScreen)) (ascii "la")
        (k'.con.terms k.con.termOnScreen) (k'.con.vram (videoPage k.con.termOnScreen)) := by
  have hrun : (entry sampleEnv zeroRam).any fun x => (exec (systemStep sampleEnv) x.2
      [.read .armFlag, .read .resetCnt,
        .output (.write (List.replicate 23 0x0A#8 ++ ascii "391OS> "))]).any fun k =>
      decide (k.procs.currTerm = k.con.termOnScreen ∧ k.con.logingPassword = false ∧
        (k.con.terms k.con.termOnScreen).terminalReadOn = true ∧
        (k.con.terms k.con.termOnScreen).terminalCnt = 0 ∧
        (k.con.terms k.con.termOnScreen).screenX = 7 ∧
        (k.con.terms k.con.termOnScreen).screenY = 23) := by
    decide +kernel
  simp only [Option.any_eq_true, decide_eq_true_eq] at hrun
  obtain ⟨⟨r, k₀⟩, hentry, k, hk, hvisible, hpassword, hread, hcnt, hx, hy⟩ := hrun
  have hinputs : ∀ c ∈ [0x6C#8, 0x73#8, 0x08#8, 0x61#8], c ≠ 0#8 ∧ c ≠ 255#8 := by decide
  obtain ⟨k', hk', hmatches, -⟩ := matchesEditor_and_stays (s := 1847) validShell_sampleImage
    hentry hk hvisible rfl rfl hread hcnt hpassword (by omega) (by omega) (by omega) hinputs
  exact ⟨r, k₀, k, k', hentry, hk, hk', hmatches rfl⟩

end Ece391
