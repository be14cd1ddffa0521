import Ece391Os.Process.Arguments
import Ece391Os.Programs.Files
import Ece391Os.Terminal.Login

/-!
# The shell

The loop of `ece391shell.c`. All lines are read into one buffer, from which `execute` is called, so
that a command is followed in memory by what is left of the lines before it.

* `shellMain` is the program over the lines that `terminal_read` gives it and the values that
  `execute` returns, with the memory of each command.
* `shellMain_session`: in every session, the shell executes the lines that have been typed, without
  the empty ones, up to the first `exit`, which ends it.
* `shellMain_getsArgs`: which arguments a program gets depends on the lines typed before. One
  without arguments gets none unless the last longer line has left a character behind the NUL.
-/

namespace Ece391

/-! ## The program -/

/-- How `main` goes on behind a `read`. -/
inductive ShellAction
  | stop (value : Word)
  | again
  | run

/-- `read(0, buf, BUFSIZE-1)` of a line, and the statements up to `execute`. -/
def shellRead (l : LineBuffer) (buf : Buffer) : Option (ShellAction × Buffer) := do
  let (cnt, stores, _) := copyOut l 1023
  let buf := buf.replay stores
  if cnt = -1 then return (.stop 3#32, buf)
  else
    let cnt := if 0 < cnt ∧ buf (cnt - 1).toNat = 0x0A#8 then cnt - 1 else cnt
    let buf := Function.update buf cnt.toNat 0#8
    let order ← ece391Strcmp buf (cString "exit" fun _ => 0#8)
    if order = 0 then return (.stop 0#32, buf)
    else if buf 0 = 0#8 then return (.again, buf)
    else return (.run, buf)

/-- What the shell says about the value of `execute`. -/
def shellMessage (rval : Word) : String :=
  if rval = -1#32 then "no such command\n"
  else if rval = 256#32 then "program terminated by exception\n"
  else if rval ≠ 0#32 then "program terminated abnormally\n"
  else ""

/-- What the shell has done: the memory of each command, what it has written, and the value of
`main` if it has returned. -/
structure ShellRun where
  commands : List Buffer
  out : List Byte
  value : Option Word

/-- The loop of `main`. Behind the last line it waits. -/
def shellLoop (descs : DescTable) : List (LineBuffer × Word) → Buffer → Option ShellRun
  | [], _ => some { commands := [], out := putLiteral "391OS> " descs, value := none }
  | (l, rval) :: rest, buf => do
    let prompt := putLiteral "391OS> " descs
    let (action, buf) ← shellRead l buf
    match action with
    | .stop value =>
      let failed :=
        if value = 3#32 then putLiteral "read from keyboard failed\n" descs else []
      return { commands := [], out := prompt ++ failed, value := some value }
    | .again =>
      let run ← shellLoop descs rest buf
      return { run with out := prompt ++ run.out }
    | .run =>
      let run ← shellLoop descs rest buf
      let message := putLiteral (shellMessage rval) descs
      return { run with commands := buf :: run.commands, out := prompt ++ message ++ run.out }

/-- `main`, with what is on the stack where `buf` is. -/
def shellMain (descs : DescTable) (rounds : List (LineBuffer × Word)) (buf : Buffer) :
    Option ShellRun :=
  (shellLoop descs rounds buf).map fun run =>
    { run with out := putLiteral "Starting 391 Shell\n" descs ++ run.out }

/-! ## One line -/

/-- The command in a line: without a newline at its end. -/
def commandText (text : List Byte) : List Byte :=
  if text.getLast? = some 0x0A#8 then text.dropLast else text

/-- The buffer behind a line: the command, and NULs up to behind the line. -/
def bufferAfter (buf : Buffer) (text : List Byte) : Buffer :=
  buf.overwrite (Buffer.ofList (commandText text) fun _ => 0#8) (text.length + 1)

/-- The read of the line returns the text, which has no NUL. -/
structure ReadsText (l : LineBuffer) (text : List Byte) : Prop where
  read : readResult 1023 l = some (text, (text.length : ℤ))
  nul : 0#8 ∉ text

variable {l : LineBuffer} {text : List Byte} {buf : Buffer} {descs : DescTable}

theorem length_commandText_le (text : List Byte) : (commandText text).length ≤ text.length := by
  unfold commandText
  split_ifs
  · rw [List.length_dropLast]
    omega
  · exact le_rfl

/-- The command is the start of the line. -/
theorem commandText_begins (text : List Byte) : commandText text <+: text := by
  unfold commandText
  split_ifs
  · exact text.dropLast_prefix
  · exact List.prefix_rfl

/-- The buffer behind a line has the command. -/
theorem spells_bufferAfter (hnul : 0#8 ∉ text) (hlen : text.length < 4294967296) (buf : Buffer) :
    Spells (bufferAfter buf text) (commandText text) := by
  have hle := length_commandText_le text
  apply spells_of_bytes
  · exact fun hmem => hnul ((commandText_begins text).subset hmem)
  · omega
  · intro j hj
    rw [bufferAfter, Buffer.overwrite_of_lt _ _ _ (by omega)]
    exact Buffer.ofList_of_lt _ _ hj
  · rw [bufferAfter, Buffer.overwrite_of_lt _ _ _ (by omega)]
    exact Buffer.ofList_length _ _

/-- What a read leaves in the buffer: the text and a NUL. -/
theorem ReadsText.copyOut_spec (h : ReadsText l text) (buf : Buffer) :
    (copyOut l 1023).1 = text.length ∧ text.length ≤ 1023 ∧
      buf.replay (copyOut l 1023).2.1 =
        buf.overwrite (Buffer.ofList text fun _ => 0#8) (text.length + 1) := by
  obtain ⟨n, hn, hret, hstores⟩ := copyOut_eq l 1023
  have hread := (@readResult_eq_copyOut l 1023 buf (by decide)).symm.trans h.read
  rw [Option.some.injEq, Prod.mk.injEq] at hread
  obtain ⟨hbytes, hcnt⟩ := hread
  have hnat : n.toNat = text.length := by omega
  refine ⟨hcnt, ?_, ?_⟩
  · rw [← hret, hcnt] at hn
    split_ifs at hn <;> omega
  · rw [hcnt, Int.toNat_natCast] at hbytes
    rw [hstores, hnat, replay_line] at hbytes ⊢
    ext j : 1
    rcases lt_trichotomy j text.length with hlt | rfl | hgt
    · have hbyte := (Buffer.bytesOf_eq_iff _).mp hbytes j hlt
      rw [Nat.zero_add] at hbyte
      rw [hbyte, Buffer.overwrite_of_lt _ _ _ (by omega), Buffer.ofList_of_lt _ _ hlt]
    · rw [Function.update_self, Buffer.overwrite_of_lt _ _ _ (by omega), Buffer.ofList_length]
    · rw [Function.update_of_ne hgt.ne', Buffer.overwrite_of_le _ _ _ hgt.le,
        Buffer.overwrite_of_le _ _ _ hgt]

/-- A newline at the end of a line is cut off. -/
theorem update_newline (text : List Byte) (buf : Buffer) :
    let line := buf.overwrite (Buffer.ofList text fun _ => 0#8) (text.length + 1)
    let cnt : ℤ := text.length
    Function.update line
        (if 0 < cnt ∧ line (cnt - 1).toNat = 0x0A#8 then cnt - 1 else cnt).toNat 0#8 =
      bufferAfter buf text := by
  intro line cnt
  have hpre := commandText_begins text
  have hle := length_commandText_le text
  have hline : ∀ j, (hj : j < text.length) → line j = text[j] := by
    intro j hj
    show buf.overwrite _ _ j = _
    rw [Buffer.overwrite_of_lt _ _ _ (by omega), Buffer.ofList_of_lt _ _ hj]
  -- what the test has for the last byte
  have hlast : (0 < cnt ∧ line (cnt - 1).toNat = 0x0A#8) ↔ text.getLast? = some 0x0A#8 := by
    rcases Nat.eq_zero_or_pos text.length with hnil | hpos
    · rw [List.length_eq_zero_iff.mp hnil]
      refine iff_of_false (fun h => ?_) (by simp)
      omega
    · have hindex : (cnt - 1).toNat = text.length - 1 := by omega
      have hlt : text.length - 1 < text.length := by omega
      rw [hindex, hline _ hlt, List.getLast?_eq_getElem?, List.getElem?_eq_getElem hlt,
        Option.some.injEq]
      exact and_iff_right (by omega)
  have hcnt : (if 0 < cnt ∧ line (cnt - 1).toNat = 0x0A#8 then cnt - 1 else cnt).toNat =
      (commandText text).length := by
    rw [if_congr hlast rfl rfl, commandText]
    split_ifs
    · rw [List.length_dropLast]
      omega
    · exact Int.toNat_natCast _
  have hcut : text.length ≤ (commandText text).length + 1 := by
    unfold commandText
    split_ifs
    · rw [List.length_dropLast]
      omega
    · omega
  rw [hcnt]
  ext j : 1
  rcases lt_trichotomy j (commandText text).length with hlt | rfl | hgt
  · rw [Function.update_of_ne hlt.ne, hline j (by omega), bufferAfter,
      Buffer.overwrite_of_lt _ _ _ (by omega), Buffer.ofList_of_lt _ _ hlt]
    exact (hpre.getElem hlt).symm
  · rw [Function.update_self, bufferAfter, Buffer.overwrite_of_lt _ _ _ (by omega),
      Buffer.ofList_length]
  · rw [Function.update_of_ne hgt.ne', bufferAfter]
    show buf.overwrite _ _ j = _
    by_cases hj : j < text.length + 1
    · rw [Buffer.overwrite_of_lt _ _ _ hj, Buffer.overwrite_of_lt _ _ _ hj,
        Buffer.ofList_of_le _ _ (by omega), Buffer.ofList_of_le _ _ hgt.le]
    · rw [Buffer.overwrite_of_le _ _ _ (by omega), Buffer.overwrite_of_le _ _ _ (by omega)]

/-- A round of the shell. -/
theorem shellRead_eq (h : ReadsText l text) (buf : Buffer) :
    shellRead l buf = some
      (if commandText text = ascii "exit" then .stop 0#32
        else if commandText text = [] then .again
        else .run, bufferAfter buf text) := by
  obtain ⟨hcnt, hlen, hbuf⟩ := h.copyOut_spec buf
  have hspells := spells_bufferAfter h.nul (by omega) buf
  have hexit : Spells (cString "exit" fun _ => 0#8) (ascii "exit") :=
    spells_cString _ (by decide) (by decide) _
  obtain ⟨order, horder, hzero⟩ := ece391Strcmp_eq_some hexit hspells
  have hempty : bufferAfter buf text 0 = 0#8 ↔ commandText text = [] := by
    constructor
    · intro hnul
      by_contra hne
      have hpos : 0 < (commandText text).length := List.length_pos_iff.mpr hne
      rw [hspells.eq_getElem hpos] at hnul
      exact hspells.nul_notMem (hnul ▸ List.getElem_mem hpos)
    · intro hnil
      have hend := hspells.eq_nul
      rwa [hnil] at hend
  have hfailed : ¬ (text.length : ℤ) = -1 := by omega
  have hline := update_newline text buf
  dsimp only at hline
  rw [shellRead]
  simp only [hcnt, hbuf, if_neg hfailed, hline, horder, Option.bind_eq_bind, Option.bind_some,
    hzero, hempty]
  split_ifs <;> rfl

/-! ## Sessions -/

/-- The line does not end the session. -/
def GoesOn (text : List Byte) : Prop := commandText text ≠ ascii "exit"

instance (text : List Byte) : Decidable (GoesOn text) := inferInstanceAs (Decidable (_ ≠ _))

/-- The commands of a session. -/
def sessionCommands (texts : List (List Byte)) : List (List Byte) :=
  ((texts.takeWhile fun text => decide (GoesOn text)).map commandText).filter (· ≠ [])

/-- What the shell writes before a line and behind its command. -/
def answerText (text : List Byte) (rval : Word) : List Byte :=
  ascii "391OS> " ++ if commandText text = [] then [] else ascii (shellMessage rval)

/-- What the shell writes in a session, up to the prompt that it ends with. -/
def sessionText (rounds : List (List Byte × Word)) : List Byte :=
  (rounds.takeWhile fun r => decide (GoesOn r.1)).flatMap (fun r => answerText r.1 r.2) ++
    ascii "391OS> "

variable {rounds : List (LineBuffer × Word)} {texts : List (List Byte)} {rval : Word}

/-- The lines of a session, one after the other. -/
def ReadsTexts (rounds : List (LineBuffer × Word)) (texts : List (List Byte)) : Prop :=
  List.Forall₂ (fun r text => ReadsText r.1 text) rounds texts

theorem sessionCommands_cons (text : List Byte) (texts : List (List Byte)) :
    sessionCommands (text :: texts) =
      if GoesOn text then
        if commandText text = [] then sessionCommands texts
        else commandText text :: sessionCommands texts
      else [] := by
  rw [sessionCommands, List.takeWhile_cons]
  by_cases hgo : GoesOn text
  · rw [if_pos (decide_eq_true hgo), if_pos hgo, List.map_cons, List.filter_cons]
    by_cases hempty : commandText text = [] <;> simp [hempty, sessionCommands]
  · rw [decide_eq_false hgo, if_neg hgo]
    rfl

theorem sessionText_cons (text : List Byte) (rval : Word) (rest : List (List Byte × Word)) :
    sessionText ((text, rval) :: rest) =
      if GoesOn text then answerText text rval ++ sessionText rest else ascii "391OS> " := by
  rw [sessionText, List.takeWhile_cons]
  by_cases hgo : GoesOn text
  · rw [if_pos (decide_eq_true hgo), if_pos hgo, List.flatMap_cons, List.append_assoc]
    rfl
  · rw [decide_eq_false hgo, if_neg hgo]
    rfl

theorem putLiteral_message (hstdout : descs 1 = terminalDesc) (rval : Word) :
    putLiteral (shellMessage rval) descs = ascii (shellMessage rval) := by
  apply putLiteral_eq hstdout
  unfold shellMessage
  split_ifs <;> decide

/-- The loop over the lines of a session. -/
theorem shellLoop_eq (hstdout : descs 1 = terminalDesc) (hreads : ReadsTexts rounds texts)
    (buf : Buffer) :
    ∃ run, shellLoop descs rounds buf = some run ∧
      List.Forall₂ Spells run.commands (sessionCommands texts) ∧
      run.out = sessionText (texts.zip (rounds.map Prod.snd)) ∧
      run.value = if ∀ text ∈ texts, GoesOn text then none else some 0#32 := by
  have hprompt : putLiteral "391OS> " descs = ascii "391OS> " := putLiteral_eq hstdout (by decide)
  induction hreads generalizing buf with
  | nil =>
    refine ⟨_, rfl, .nil, hprompt, ?_⟩
    rw [if_pos fun text hmem => absurd hmem List.not_mem_nil]
  | @cons r text rounds texts hread _ ih =>
    obtain ⟨l, rval⟩ := r
    obtain ⟨run, hrun, hcommands, hout, hvalue⟩ := ih (bufferAfter buf text)
    have hround := shellRead_eq hread buf
    rw [sessionCommands_cons, List.map_cons, List.zip_cons_cons, sessionText_cons]
    by_cases hexit : commandText text = ascii "exit"
    · -- `exit` returns from `main`
      have hstop : ¬ GoesOn text := fun hgo => hgo hexit
      have hsome : ¬ ∀ t ∈ text :: texts, GoesOn t := fun h => hstop (h text List.mem_cons_self)
      rw [if_pos hexit] at hround
      refine ⟨{ commands := [], out := putLiteral "391OS> " descs ++ [], value := some 0#32 },
        ?_, ?_, ?_, ?_⟩
      · simp only [shellLoop, hround, Option.bind_eq_bind, Option.bind_some]
        rfl
      · rw [if_neg hstop]
        exact .nil
      · rw [if_neg hstop, List.append_nil, hprompt]
      · rw [if_neg hsome]
    have hgo : GoesOn text := hexit
    have hall : (∀ t ∈ text :: texts, GoesOn t) ↔ ∀ t ∈ texts, GoesOn t := by
      rw [List.forall_mem_cons]
      exact and_iff_right hgo
    rw [if_neg hexit] at hround
    rw [if_pos hgo, if_pos hgo, if_congr hall rfl rfl]
    by_cases hempty : commandText text = []
    · rw [if_pos hempty] at hround
      refine ⟨{ run with out := putLiteral "391OS> " descs ++ run.out }, ?_, ?_, ?_, hvalue⟩
      · simp only [shellLoop, hround, hrun, Option.bind_eq_bind, Option.bind_some]
        rfl
      · rw [if_pos hempty]
        exact hcommands
      · rw [answerText, if_pos hempty, List.append_nil, hprompt, hout]
    · rw [if_neg hempty] at hround
      refine ⟨{ run with
          commands := bufferAfter buf text :: run.commands
          out := putLiteral "391OS> " descs ++ putLiteral (shellMessage rval) descs ++ run.out },
        ?_, ?_, ?_, hvalue⟩
      · simp only [shellLoop, hround, hrun, Option.bind_eq_bind, Option.bind_some]
        rfl
      · obtain ⟨-, hlen, -⟩ := hread.copyOut_spec buf
        rw [if_neg hempty]
        exact .cons (spells_bufferAfter hread.nul (by omega) buf) hcommands
      · rw [answerText, if_neg hempty, hprompt, putLiteral_message hstdout, hout]

/-- In every session the shell executes the lines that have been typed, in order and without the
empty ones, up to the first `exit`. It writes a prompt for each line and what has become of its
command, and returns 0 at `exit`. -/
theorem shellMain_session (hstdout : descs 1 = terminalDesc) (hreads : ReadsTexts rounds texts)
    (buf : Buffer) :
    ∃ run, shellMain descs rounds buf = some run ∧
      List.Forall₂ Spells run.commands (sessionCommands texts) ∧
      run.out = ascii "Starting 391 Shell\n" ++ sessionText (texts.zip (rounds.map Prod.snd)) ∧
      run.value = if ∀ text ∈ texts, GoesOn text then none else some 0#32 := by
  obtain ⟨run, hrun, hcommands, hout, hvalue⟩ := shellLoop_eq hstdout hreads buf
  have hstart : putLiteral "Starting 391 Shell\n" descs = ascii "Starting 391 Shell\n" :=
    putLiteral_eq hstdout (by decide)
  exact ⟨_, congrArg (Option.map _) hrun, hcommands, congrArg₂ _ hstart hout, hvalue⟩

/-! ## What is left of earlier lines -/

/-- The byte with index `n` that the lines have left in the buffer: the last one of them that was
long enough has written it. -/
def leftover (buf : Buffer) (texts : List (List Byte)) (n : ℕ) : Byte :=
  match texts.reverse.find? fun text => decide (n ≤ text.length) with
  | some text => Buffer.ofList (commandText text) (fun _ => 0#8) n
  | none => buf n

theorem foldl_bufferAfter_apply (buf : Buffer) (texts : List (List Byte)) (n : ℕ) :
    texts.foldl bufferAfter buf n = leftover buf texts n := by
  induction texts using List.reverseRecOn with
  | nil => rfl
  | append_singleton texts text ih =>
    rw [List.foldl_append, List.foldl_cons, List.foldl_nil, leftover, List.reverse_append,
      List.reverse_singleton, List.singleton_append, List.find?_cons]
    by_cases hn : n ≤ text.length
    · rw [bufferAfter, Buffer.overwrite_of_lt _ _ _ (Nat.lt_succ_of_le hn), decide_eq_true hn]
    · rw [bufferAfter, Buffer.overwrite_of_le _ _ _ (by omega), decide_eq_false hn, ih]
      rfl

/-- The memory of the last command of a session that goes on to it. -/
theorem shellLoop_last (descs : DescTable) (hreads : ReadsTexts rounds texts)
    (hgo : ∀ t ∈ texts, GoesOn t)
    (hread : ReadsText l text) (hlast : GoesOn text) (hne : commandText text ≠ [])
    (rval : Word) (buf : Buffer) :
    ∃ run, shellLoop descs (rounds ++ [(l, rval)]) buf = some run ∧
      run.commands.getLast? = some (bufferAfter (texts.foldl bufferAfter buf) text) := by
  induction hreads generalizing buf with
  | nil =>
    have hround := shellRead_eq hread buf
    rw [if_neg hlast, if_neg hne] at hround
    refine ⟨{
        commands := [bufferAfter buf text]
        out := putLiteral "391OS> " descs ++ putLiteral (shellMessage rval) descs ++
          putLiteral "391OS> " descs
        value := none }, ?_, rfl⟩
    simp only [List.nil_append, shellLoop, hround, Option.bind_eq_bind, Option.bind_some]
    rfl
  | @cons r t rounds texts hr _ ih =>
    obtain ⟨l', rval'⟩ := r
    rw [List.forall_mem_cons] at hgo
    obtain ⟨run, hrun, hcommand⟩ := ih hgo.2 (bufferAfter buf t)
    have hround := shellRead_eq hr buf
    rw [if_neg hgo.1] at hround
    by_cases hempty : commandText t = []
    · rw [if_pos hempty] at hround
      refine ⟨{ run with out := putLiteral "391OS> " descs ++ run.out }, ?_, hcommand⟩
      simp only [List.cons_append, shellLoop, hround, hrun, Option.bind_eq_bind, Option.bind_some]
      rfl
    · rw [if_neg hempty] at hround
      refine ⟨{ run with
          commands := bufferAfter buf t :: run.commands
          out := putLiteral "391OS> " descs ++ putLiteral (shellMessage rval') descs ++ run.out },
        ?_, ?_⟩
      · simp only [List.cons_append, shellLoop, hround, hrun, Option.bind_eq_bind,
          Option.bind_some]
        rfl
      · rw [List.getLast?_cons, hcommand]
        rfl

/-- A command line in the buffer, with what is left behind it. -/
theorem bufferAfter_bytes {c : CommandLine} (hline : commandText c.bytes = c.bytes) (buf : Buffer) :
    bufferAfter buf c.bytes = c.memory fun j => buf (c.bytes.length + 1 + j) := by
  ext j : 1
  rw [bufferAfter, hline, CommandLine.memory, Buffer.ofList_append]
  rcases lt_trichotomy j c.bytes.length with hlt | rfl | hgt
  · rw [Buffer.overwrite_of_lt _ _ _ (by omega), Buffer.ofList_of_lt _ _ hlt,
      Buffer.ofList_of_lt _ _ hlt]
  · rw [Buffer.overwrite_of_lt _ _ _ (by omega), Buffer.ofList_length, Buffer.ofList_length]
    rfl
  · obtain ⟨k, rfl⟩ := Nat.exists_eq_add_of_le hgt
    rw [Buffer.overwrite_of_le _ _ _ (by omega), Nat.succ_add_eq_add_succ,
      Buffer.ofList_length_add, Buffer.ofList_cons_succ, Buffer.ofList_nil]
    congr 1
    omega

/-- A line that has been typed is read. -/
theorem Typed.readsText (h : Typed l text) : ReadsText l text := by
  obtain ⟨hcnt, hbytes, hnul, hlen⟩ := h
  have hfits : l.cnt ≤ 1023 := by omega
  have htext : ((List.range l.cnt.toNat).map fun i : ℕ => l.buf i) = text := by
    refine List.ext_getElem (by simp [hcnt]) fun j hj hj' => ?_
    rw [List.getElem_map, List.getElem_range]
    exact hbytes j hj'
  refine ⟨?_, hnul⟩
  rw [readResult, if_pos (Or.inl hfits), htext, hcnt]

theorem readsText_lineOf (hnul : 0#8 ∉ text) (hlen : text.length ≤ 127) :
    ReadsText (lineOf text) text := (typed_lineOf text hnul hlen).readsText

/-- `ls`, an empty line, `exit`, and a line that is not read. -/
theorem shellMain_session_sample :
    ∃ run, shellMain (fun _ => terminalDesc)
        [(lineOf (ascii "ls"), -1#32), (lineOf [], 0#32),
          (lineOf (ascii "exit"), 0#32), (lineOf (ascii "cat"), 0#32)]
        (fun _ => 0#8) = some run ∧
      List.Forall₂ Spells run.commands [ascii "ls"] ∧
      run.out = ascii "Starting 391 Shell\n391OS> no such command\n391OS> 391OS> " ∧
      run.value = some 0#32 := by
  have hreads : ReadsTexts
      [(lineOf (ascii "ls"), -1#32), (lineOf [], 0#32),
        (lineOf (ascii "exit"), 0#32), (lineOf (ascii "cat"), 0#32)]
      [ascii "ls", [], ascii "exit", ascii "cat"] := by
    refine .cons ?_ (.cons ?_ (.cons ?_ (.cons ?_ .nil))) <;>
      exact readsText_lineOf (by decide +kernel) (by decide +kernel)
  obtain ⟨run, hrun, hcommands, hout, hvalue⟩ :=
    @shellMain_session (fun _ => terminalDesc) _ _ rfl hreads (fun _ => 0#8)
  exact ⟨run, hrun, hcommands, hout.trans (by decide +kernel), hvalue.trans (by decide +kernel)⟩

/-- Which arguments a program gets in a session. Behind a space it gets what has been typed. A
program without arguments gets none exactly when the last line that was longer has left a NUL behind
that of the command. -/
theorem shellMain_getsArgs (env : Env) (descs : DescTable) {c : CommandLine}
    (hreads : ReadsTexts rounds texts) (hgo : ∀ t ∈ texts, GoesOn t) (hread : ReadsText l c.bytes)
    (hline : commandText c.bytes = c.bytes) (hexit : c.bytes ≠ ascii "exit") (rval : Word)
    (buf : Buffer) :
    ∃ run command, shellMain descs (rounds ++ [(l, rval)]) buf = some run ∧
      run.commands.getLast? = some command ∧
      ∀ stack k k' eip, execute env command stack k = some (.userMode eip, k') →
        (GetsArgs k' c.text ↔
          c.args.isSome = true ∨ leftover buf texts (c.bytes.length + 1) = 0#8) := by
  have hname : 0 < c.name.length := List.length_pos_iff.mpr c.name_ne_nil
  have hne : commandText c.bytes ≠ [] := by
    rw [hline, CommandLine.bytes]
    exact List.append_ne_nil_of_left_ne_nil c.name_ne_nil _
  have hlast : GoesOn c.bytes := by rwa [GoesOn, hline]
  obtain ⟨run, hrun, hcommand⟩ := shellLoop_last descs hreads hgo hread hlast hne rval buf
  refine ⟨_, _, congrArg (Option.map _) hrun, hcommand, fun stack k k' eip hx => ?_⟩
  rw [bufferAfter_bytes hline] at hx
  rw [getsArgs_launched_iff hx, foldl_bufferAfter_apply]

/-- `shell` behind `cat frame0.txt`: the program that has been asked for nothing finds the end of
the file's name. -/
theorem shellMain_getsArgs_sample :
    ∃ run command, shellMain (fun _ => terminalDesc)
        ([(lineOf (ascii "cat frame0.txt"), 0#32)] ++
          [(lineOf (ascii "shell"), 0#32)]) (fun _ => 0#8) = some run ∧
      run.commands.getLast? = some command ∧
      ∀ stack k k' eip, execute sampleEnv command stack k = some (.userMode eip, k') →
        ¬ GetsArgs k' [] := by
  have hreads : ReadsTexts [(lineOf (ascii "cat frame0.txt"), 0#32)]
      [ascii "cat frame0.txt"] :=
    .cons (readsText_lineOf (by decide +kernel) (by decide +kernel)) .nil
  have hread : ReadsText (lineOf (ascii "shell")) shellAlone.bytes :=
    readsText_lineOf (by decide +kernel) (by decide +kernel)
  obtain ⟨run, command, hrun, hcommand, hargs⟩ :=
    shellMain_getsArgs sampleEnv (fun _ => terminalDesc) hreads
      (by decide +kernel) hread (by decide +kernel) (by decide +kernel) 0#32 (fun _ => 0#8)
  refine ⟨run, command, hrun, hcommand, fun stack k k' eip hx hget => ?_⟩
  exact absurd ((hargs stack k k' eip hx).mp hget) (by decide +kernel)

end Ece391
