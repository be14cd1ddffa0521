import Ece391Os.Terminal.Line

/-!
# Echo

`kbd` draws through `VIDEO_FOR_READ`, on the page of the terminal on screen, but it scrolls at
`VIDEO`, where the page of the running process's terminal is mapped. The two are the same page
unless another terminal than the one on screen runs.

* `Scrolls` and `EchoInPage`: which input bytes scroll, and which draw inside the page.
* `KeyInPlace` is the condition under which a key draws on the terminal on screen alone.
* `kbd_touchesOnly`: in every reachable state such a key changes nothing of the other terminals.
* `not_touchesOnly_enter`: Enter on the last row scrolls the terminal that runs.
-/

namespace Ece391

open Transition

/-- `con'` differs from `con` only in terminal `t`, in its video page, and in the registers of the
CRT controller. -/
structure TouchesOnly (t : TermId) (con con' : Console) : Prop where
  termOnScreen : con'.termOnScreen = con.termOnScreen
  terms : ∀ t', t' ≠ t → con'.terms t' = con.terms t'
  vram : ∀ Q, Q ≠ videoPage t → con'.vram Q = con.vram Q

/-- The handler handles the input byte as a character, Enter or Backspace. -/
def Accepts (input : Byte) (term : Term) : Prop :=
  input ≠ 255#8 ∧ input ≠ 0#8 ∧ term.terminalReadOn = true

/-- An accepted input byte scrolls: Enter on the last row, a character that wraps there, or a full
buffer with the cursor on the last row. -/
def Scrolls (input : Byte) (term : Term) : Prop :=
  if input = 0x0A#8 then
    term.screenY = 23 ∨ term.terminalCnt = 128 ∧ 22 ≤ term.screenY
  else if input = 0x08#8 then False
  else
    term.terminalCnt ≤ 127 ∧ term.screenX = 79 ∧ term.screenY = 23 ∨
      term.terminalCnt = 127 ∧ (if term.screenX = 79 then 22 else 23) ≤ term.screenY ∨
      term.terminalCnt = 128 ∧ 23 ≤ term.screenY

/-- The cell an accepted input byte is drawn in lies in a page of 4096 bytes. -/
def EchoInPage (input : Byte) (term : Term) : Prop :=
  if input = 0x0A#8 then True
  else if input = 0x08#8 then
    term.terminalCnt ≠ 0 → 1 ≤ term.screenX + 80 * term.screenY ∧
      term.screenX + 80 * term.screenY ≤ 2048
  else
    term.terminalCnt ≤ 127 → 0 ≤ term.screenX + 80 * term.screenY ∧
      term.screenX + 80 * term.screenY < 2048

/-- What a key asks for stays on the terminal on screen. -/
def ActionInPlace (k : Kernel) : KeyAction → Prop
  | .char c =>
    let term := k.con.terms k.con.termOnScreen
    Accepts c term → (Scrolls c term → k.procs.currTerm = k.con.termOnScreen) ∧ EchoInPage c term
  | .interrupt => IsRootPid k.procs.currPid → k.procs.currTerm = k.con.termOnScreen
  | .null | .clearLine | .switch _ => True

/-- A key neither scrolls, nor prints the message of Ctrl+C, on another terminal than the one on
screen, and the character it draws is inside the page. -/
def KeyInPlace (env : Env) (inpack : Byte) (k : Kernel) : Prop :=
  ActionInPlace k (decode env k.kbd inpack).2

instance (input : Byte) (term : Term) : Decidable (Accepts input term) :=
  inferInstanceAs (Decidable (_ ∧ _ ∧ _))

instance (input : Byte) (term : Term) : Decidable (Scrolls input term) :=
  inferInstanceAs (Decidable (ite _ _ _))

instance (input : Byte) (term : Term) : Decidable (EchoInPage input term) :=
  inferInstanceAs (Decidable (ite _ _ _))

instance ActionInPlace.decidable (k : Kernel) : ∀ action, Decidable (ActionInPlace k action)
  | .char _ => inferInstanceAs (Decidable (_ → _))
  | .interrupt => inferInstanceAs (Decidable (_ → _))
  | .null | .clearLine | .switch _ => isTrue trivial

instance (env : Env) (inpack : Byte) (k : Kernel) : Decidable (KeyInPlace env inpack k) :=
  inferInstanceAs (Decidable (ActionInPlace _ _))

/-! ## What an input byte draws -/

section

variable {hidden : Bool} {input : Byte} {term : Term} {op : VideoOp}

/-- A full buffer adds a scroll when the cursor is on the last row. -/
theorem mem_ops_bufferFull {e : KeyEffect} (h : op ∈ (bufferFull e).ops) :
    op ∈ e.ops ∨ op = .scroll ∧ e.term.terminalCnt = 128 ∧ 23 ≤ e.term.screenY := by
  rw [bufferFull] at h
  split_ifs at h with hcnt
  · rcases List.mem_append.mp h with h | h
    · exact Or.inl h
    · split_ifs at h with habove
      · exact (List.not_mem_nil h).elim
      · refine Or.inr ⟨List.mem_singleton.mp h, hcnt, ?_⟩
        simpa [numRows] using habove
  · exact Or.inl h

theorem mem_ops_enterKey (h : op ∈ (enterKey term).ops) : op = .scroll ∧ term.screenY = 23 := by
  by_cases hbottom : term.screenY + 1 = numRows
  · simp only [enterKey, if_pos hbottom, List.mem_singleton] at h
    simp only [numRows] at hbottom
    exact ⟨h, by omega⟩
  · simp only [enterKey, if_neg hbottom, List.not_mem_nil] at h

theorem mem_ops_backspaceKey (h : op ∈ (backspaceKey term).ops) :
    term.terminalCnt ≠ 0 ∧ op = .cell (term.screenX - 1 + term.screenY * 80) 0#8 := by
  rw [backspaceKey] at h
  split_ifs at h with hcnt
  · exact (List.not_mem_nil h).elim
  · exact ⟨hcnt, List.mem_singleton.mp h⟩

/-- A character is drawn in the cell under the cursor, which a scroll has moved up by a row. -/
theorem mem_ops_charKey (h : op ∈ (charKey hidden input term).ops) :
    term.terminalCnt ≤ 127 ∧
      (op = .scroll ∧ term.screenX = 79 ∧ term.screenY = 23 ∨
        ∃ off b, op = .cell off b ∧
          (off = term.screenX + 80 * term.screenY ∨ off = 1839)) := by
  by_cases hcnt : term.terminalCnt ≤ bufSize - 1
  · refine ⟨by simp only [bufSize] at hcnt; omega, ?_⟩
    simp only [charKey, if_pos hcnt, List.mem_append, List.mem_singleton] at h
    rcases h with h | h
    · by_cases hbottom : term.screenX + 1 = 80 ∧ term.screenY + 1 = numRows
      · rw [if_pos hbottom, List.mem_singleton] at h
        simp only [numRows] at hbottom
        exact Or.inl ⟨h, by omega, by omega⟩
      · rw [if_neg hbottom] at h
        exact (List.not_mem_nil h).elim
    · refine Or.inr ⟨_, _, h, ?_⟩
      simp only [numRows, numCols]
      split_ifs <;> omega
  · simp only [charKey, if_neg hcnt, List.not_mem_nil] at h

/-- A byte that draws anything is accepted; a scroll comes from a byte that scrolls, and a character
is drawn where `EchoInPage` looks. -/
theorem mem_ops_inputEffect (hcnt : term.terminalCnt ≤ 128)
    (hop : op ∈ (inputEffect hidden input term).ops) :
    Accepts input term ∧ (op = .scroll → Scrolls input term) ∧
      ∀ off b, op = .cell off b → EchoInPage input term → 0 ≤ off ∧ off < 2048 := by
  rw [inputEffect] at hop
  split_ifs at hop with h255 hread
  · exact (List.not_mem_nil hop).elim
  · refine ⟨⟨h255, hread⟩, ?_⟩
    rw [keyEffect] at hop
    split_ifs at hop with henter hback
    · -- Enter
      simp only [Scrolls, if_pos henter]
      rcases mem_ops_bufferFull hop with h | ⟨rfl, hfull, hrow⟩
      · obtain ⟨rfl, hrow⟩ := mem_ops_enterKey h
        exact ⟨fun _ => Or.inl hrow, fun _ _ h => by simp at h⟩
      · refine ⟨fun _ => ?_, fun _ _ h => by simp at h⟩
        refine Or.inr ⟨hfull, ?_⟩
        simp only [enterKey] at hrow
        split_ifs at hrow <;> omega
    · -- Backspace leaves less than a full line
      simp only [Scrolls, EchoInPage, if_neg henter, if_pos hback]
      rcases mem_ops_bufferFull hop with h | ⟨rfl, hfull, -⟩
      · obtain ⟨hpos, rfl⟩ := mem_ops_backspaceKey h
        refine ⟨fun h => by simp at h, fun off b hcell hpage => ?_⟩
        cases hcell
        have hpage := hpage hpos
        omega
      · exfalso
        rw [backspaceKey] at hfull
        split_ifs at hfull with hzero
        · exact absurd (hzero.symm.trans hfull) (by decide)
        · have hless : term.terminalCnt - 1 = 128 := hfull
          omega
    · -- a character
      simp only [Scrolls, EchoInPage, if_neg henter, if_neg hback]
      rcases mem_ops_bufferFull hop with h | ⟨rfl, hfull, hrow⟩
      · obtain ⟨hroom, ⟨rfl, hlast⟩ | ⟨off, b, rfl, hoff⟩⟩ := mem_ops_charKey h
        · exact ⟨fun _ => Or.inl ⟨hroom, hlast⟩, fun _ _ h => by simp at h⟩
        · refine ⟨fun h => by simp at h, fun off' b' hcell hpage => ?_⟩
          cases hcell
          have hpage := hpage hroom
          omega
      · refine ⟨fun _ => ?_, fun _ _ h => by simp at h⟩
        right
        by_cases hroom : term.terminalCnt ≤ bufSize - 1
        · simp only [charKey, if_pos hroom] at hfull hrow
          refine Or.inl ⟨by omega, ?_⟩
          split_ifs at hrow ⊢ <;> omega
        · simp only [charKey, if_neg hroom] at hfull hrow
          exact Or.inr ⟨hfull, hrow⟩
  · exact (List.not_mem_nil hop).elim

end

/-! ## Frames -/

/-- The page of a terminal is present behind `VIDEO_FOR_READ`. -/
theorem Console.pokeRead_eq {con : Console} {t : TermId} {off : ℤ} {b : Byte} (h0 : 0 ≤ off)
    (hlt : off < 4096) :
    con.pokeRead t off b = some { con with
      vram := Function.update con.vram (videoPage t)
        (Function.update (con.vram (videoPage t)) off.toNat b) } := by
  have hdiv : off / 4096 = 0 := Int.ediv_eq_zero_of_lt h0 hlt
  have hmod : off % 4096 = off := Int.emod_eq_of_lt h0 hlt
  have hpresent : Console.videoTable (0xB8 + 2 * t.val + 0) = some (videoPage t) := by
    revert t
    decide
  rw [Console.pokeRead, hdiv, hmod, hpresent, Option.map_some]

namespace TouchesOnly

variable {t : TermId} {con con' con'' : Console}

theorem refl (con : Console) : TouchesOnly t con con := ⟨rfl, fun _ _ => rfl, fun _ _ => rfl⟩

theorem trans (h : TouchesOnly t con con') (h' : TouchesOnly t con' con'') :
    TouchesOnly t con con'' where
  termOnScreen := h'.termOnScreen.trans h.termOnScreen
  terms t' ht := (h'.terms t' ht).trans (h.terms t' ht)
  vram Q hQ := (h'.vram Q hQ).trans (h.vram Q hQ)

theorem setTerm (con : Console) (t : TermId) (f : Term → Term) :
    TouchesOnly t con (con.setTerm t f) :=
  ⟨rfl, fun _ ht => Function.update_of_ne ht _ _, fun _ _ => rfl⟩

/-- A change of the page of `t`. -/
theorem updatePage (con : Console) (t : TermId) (p : Page) :
    TouchesOnly t con { con with vram := Function.update con.vram (videoPage t) p } :=
  ⟨rfl, fun _ _ => rfl, fun _ hQ => Function.update_of_ne hQ _ _⟩

theorem onlyScreen (h : Console.OnlyScreen t (videoPage t) con con') : TouchesOnly t con con' :=
  ⟨h.termOnScreen, h.terms, h.vram⟩

/-- A byte stored through `VIDEO_FOR_READ` inside the page of `t`. -/
theorem pokeRead {off : ℤ} {b : Byte} (h0 : 0 ≤ off) (hlt : off < 4096)
    (h : con.pokeRead t off b = some con') : TouchesOnly t con con' := by
  rw [Console.pokeRead_eq h0 hlt] at h
  cases h
  exact updatePage con t _

/-- Operations that scroll or draw on the page of the terminal on screen. -/
theorem videoOps {P : ℕ} {ops : List VideoOp} (ht : con.termOnScreen = t)
    (hscroll : .scroll ∈ ops → P = videoPage t)
    (hcell : ∀ off b, .cell off b ∈ ops → 0 ≤ off ∧ off < 2048)
    (h : exec (Console.videoOp P) con ops = some con') : TouchesOnly t con con' := by
  refine exec_invariant (I := TouchesOnly t con) (P := fun _ op => op ∈ ops) ?_ (refl con)
    (along_of_forall (fun op hop => hop) con) h
  intro c op c' hc hop hstep
  cases op with
  | scroll =>
    cases hstep
    rw [hscroll hop]
    exact hc.trans (updatePage c t _)
  | cell off b =>
    obtain ⟨h0, hlt⟩ := hcell off b hop
    obtain ⟨c₁, h₁, h₂⟩ := Option.bind_eq_some_iff.mp hstep
    rw [hc.termOnScreen.trans ht] at h₁
    have hc₁ := hc.trans (pokeRead (by omega) (by omega) h₁)
    rw [hc₁.termOnScreen.trans ht] at h₂
    exact hc₁.trans (pokeRead (by omega) (by omega) h₂)

theorem clearKey (con : Console) : TouchesOnly con.termOnScreen con con.clearKey :=
  ((updatePage con con.termOnScreen _).trans (setTerm _ _ _)).trans (onlyScreen (.updateCursor _))

end TouchesOnly

/-! ## Keys -/

section

open TouchesOnly

variable {env : Env} {inpack : Byte} {k k' : Kernel} {stores : List ℤ}

/-- A key that stays on the terminal on screen, in a state with the running terminal mapped. -/
theorem Keys.touchesOnly {S : Forest} (hS : Represents k.procs S)
    (hcnt : (k.con.lines k.con.termOnScreen).InRange) (hplace : KeyInPlace env inpack k)
    (hscreen : k'.con.termOnScreen = k.con.termOnScreen)
    (h : Keys env inpack k (.iret stores) k') :
    k'.procs = k.procs ∧ TouchesOnly k.con.termOnScreen k.con k'.con := by
  cases h with
  | null => exact ⟨rfl, .refl k.con⟩
  | clearLine hkey =>
    refine ⟨rfl, ?_⟩
    rw [Kernel.con_sendEoi]
    dsimp only
    exact (clearKey k.con).trans (setTerm _ _ _)
  | @architect flags con hkey hroot hcon =>
    rw [KeyInPlace, hkey] at hplace
    have hterm : k.procs.currTerm = k.con.termOnScreen := hplace hroot
    rw [hS.videoMapping, hterm] at hcon
    refine ⟨rfl, ?_⟩
    rw [Kernel.con_sendEoi, Kernel.con_sendEoi]
    dsimp only
    exact (onlyScreen (Console.onlyScreen_puts hcon)).trans (setTerm _ _ _)
  | @switch flags t hkey =>
    -- the terminal is on screen already
    rw [Kernel.con_sendEoi, switchTerm] at hscreen
    rw [switchTerm]
    split_ifs at hscreen ⊢ with hsame
    · exact ⟨rfl, .refl k.con⟩
    · exact absurd hscreen.symm hsame
  | @char flags c con hkey hcon =>
    refine ⟨rfl, ?_⟩
    rw [KeyInPlace, hkey] at hplace
    obtain ⟨con₁, hops, hvram, hterms, hscreen₁⟩ := Console.key_eq_some hcon
    have hdraw := fun op (hop : op ∈ (inputEffect k.con.logingPassword c _).ops) =>
      mem_ops_inputEffect hcnt.2 hop
    have hframe : TouchesOnly k.con.termOnScreen k.con con₁ := by
      refine .videoOps rfl (fun hop => ?_) (fun off b hop => ?_) hops
      · obtain ⟨haccept, hscroll, -⟩ := hdraw _ hop
        rw [hS.videoMapping, (hplace haccept).1 (hscroll rfl)]
      · obtain ⟨haccept, -, hcell⟩ := hdraw _ hop
        exact hcell off b rfl (hplace haccept).2
    refine ⟨hscreen₁, fun t ht => ?_, fun Q hQ => ?_⟩
    · rw [Kernel.con_sendEoi, hterms, Function.update_of_ne ht]
    · rw [Kernel.con_sendEoi, hvram]
      exact hframe.vram Q hQ

end

/-- In every state a run from boot reaches, a key that meets the condition, halts no process and
switches no terminal changes the terminal on screen and its video page, and of the other terminals
nothing. -/
theorem kbd_touchesOnly {env : Env} {ram : BootRam} {r : ExecResult} {k₀ k k' : Kernel}
    {es : List SystemEvent} {inpack : Byte} {stores : List ℤ} (hshell : ValidShell env.img)
    (hentry : entry env ram = some (r, k₀)) (hrun : exec (systemStep env) k₀ es = some k)
    (hplace : KeyInPlace env inpack k) (hkey : kbd env inpack k = some (.iret stores, k'))
    (hscreen : k'.con.termOnScreen = k.con.termOnScreen) :
    k'.procs = k.procs ∧ TouchesOnly k.con.termOnScreen k.con k'.con := by
  obtain ⟨⟨S, hS⟩, hlines⟩ := reachable_systemStep hshell hentry hrun
  exact (kbd_cases hkey).touchesOnly hS (hlines _) hplace hscreen

/-- A character for terminal 0, which is on screen, while terminal 1 runs. -/
theorem kbd_touchesOnly_sample :
    ∃ r k₀ k k' stores, entry sampleEnv zeroRam = some (r, k₀) ∧
      exec (systemStep sampleEnv) k₀
        [.read .armFlag, .output (.process (.switchTerm 1)), .output (.process (.switchTerm 0)),
          .output (.process (.tick 0x1000#32)), .output (.process (.tick 0x1000#32))] = some k ∧
      k.procs.currTerm = 1 ∧ kbd sampleEnv 30#8 k = some (.iret stores, k') ∧
      k'.procs = k.procs ∧ TouchesOnly k.con.termOnScreen k.con k'.con := by
  have hrun : (entry sampleEnv zeroRam).any fun x => (exec (systemStep sampleEnv) x.2
      [.read .armFlag, .output (.process (.switchTerm 1)), .output (.process (.switchTerm 0)),
        .output (.process (.tick 0x1000#32)), .output (.process (.tick 0x1000#32))]).any fun k =>
      (kbd sampleEnv 30#8 k).any fun y => decide (k.procs.currTerm = 1 ∧
        KeyInPlace sampleEnv 30#8 k ∧ y.1.stores = some [0] ∧
        y.2.con.termOnScreen = k.con.termOnScreen) := by
    decide +kernel
  simp only [Option.any_eq_true, decide_eq_true_eq] at hrun
  obtain ⟨⟨r, k₀⟩, hentry, k, hk, ⟨res, k'⟩, hkey, hterm, hplace, hstores, hscreen⟩ := hrun
  obtain rfl : res = .iret _ := KbdResult.stores_eq_some.mp hstores
  exact ⟨r, k₀, k, k', _, hentry, hk, hterm, hkey,
    kbd_touchesOnly validShell_sampleImage hentry hk hplace hkey hscreen⟩

/-- Terminal 0 is on screen with its cursor on the last row while terminal 1 runs: Enter scrolls the
page of terminal 1. -/
theorem not_touchesOnly_enter :
    ∃ r k₀ k k' stores, entry sampleEnv zeroRam = some (r, k₀) ∧
      exec (systemStep sampleEnv) k₀
        [.read .armFlag, .output (.write (List.replicate 23 0x0A#8)),
          .output (.process (.switchTerm 1)), .output (.process (.switchTerm 0)),
          .output (.process (.tick 0x1000#32)), .output (.process (.tick 0x1000#32)),
          .output (.write (ascii "\nhello"))] = some k ∧
      k.con.termOnScreen = 0 ∧ kbd sampleEnv 28#8 k = some (.iret stores, k') ∧
      k'.con.termOnScreen = 0 ∧ k'.con.vram (videoPage 1) ≠ k.con.vram (videoPage 1) ∧
      ¬ TouchesOnly k.con.termOnScreen k.con k'.con := by
  have hrun : (entry sampleEnv zeroRam).any fun x => (exec (systemStep sampleEnv) x.2
      [.read .armFlag, .output (.write (List.replicate 23 0x0A#8)),
        .output (.process (.switchTerm 1)), .output (.process (.switchTerm 0)),
        .output (.process (.tick 0x1000#32)), .output (.process (.tick 0x1000#32)),
        .output (.write (ascii "\nhello"))]).any fun k =>
      (kbd sampleEnv 28#8 k).any fun y => decide (k.con.termOnScreen = 0 ∧
        y.1.stores = some [] ∧ y.2.con.termOnScreen = 0 ∧
        y.2.con.vram (videoPage 1) 0 = 0x68#8 ∧ k.con.vram (videoPage 1) 0 = 0#8) := by
    decide +kernel
  simp only [Option.any_eq_true, decide_eq_true_eq] at hrun
  obtain ⟨⟨r, k₀⟩, hentry, k, hk, ⟨res, k'⟩, hkey, hscreen, hstores, hscreen', hnew, hold⟩ := hrun
  obtain rfl : res = .iret _ := KbdResult.stores_eq_some.mp hstores
  have hpage : k'.con.vram (videoPage 1) ≠ k.con.vram (videoPage 1) := by
    intro heq
    rw [heq, hold] at hnew
    exact absurd hnew (by decide)
  refine ⟨r, k₀, k, k', _, hentry, hk, hscreen, hkey, hscreen', hpage, fun h => hpage ?_⟩
  apply h.vram
  rw [hscreen]
  decide

end Ece391
