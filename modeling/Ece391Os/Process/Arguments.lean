import Ece391Os.Process.Boot

/-!
# Argument passing

`getargs` of `syscall.c`, and what a launched program gets from it.

* A `CommandLine` is a command a program can pass to `execute`: a name, and an argument when there
  is a space behind it. Its memory goes on behind the terminating NUL.
* `parseCommand_arg`: the second scan of `execute` starts behind the byte that ended the first.
  Behind a space it finds the argument; without one it starts behind the NUL.
* `passesArgs_iff`: the program gets its argument exactly when there was a space or the byte behind
  the NUL is another NUL. `getsArgs_launched_iff` is the same for a program that has been launched.
-/

namespace Ece391

/-- `getargs`: the return value and the caller's buffer. The comparison is unsigned, as `strlen`
is. -/
def getargs (k : Kernel) (buf : Buffer) (nbytes : Word) : Option (Word × Buffer) := do
  let args := (k.procs.pcbs k.procs.currPid).args
  let len ← strlen args
  if nbytes < BitVec.ofNat 32 len + 1#32 then some (-1#32, buf)
  else some (0#32, buf.overwrite args nbytes.toNat)

/-- A command that fits the buffers of `execute`: a name without spaces, and the text behind the
first space, if there is one. -/
structure CommandLine where
  name : List Byte
  args : Option (List Byte)
  name_ne_nil : name ≠ []
  length_name : name.length ≤ 32
  endsName_name : ∀ b ∈ name, endsName b = false
  length_args : ∀ a ∈ args, a.length ≤ 128
  nul_args : ∀ a ∈ args, 0#8 ∉ a

namespace CommandLine

/-- The bytes of the command up to its NUL. -/
def bytes (c : CommandLine) : List Byte := c.name ++ c.args.elim [] fun a => 0x20#8 :: a

/-- The memory of the command: its bytes, the NUL, and what lies behind. -/
def memory (c : CommandLine) (rest : Buffer) : Buffer := Buffer.ofList (c.bytes ++ [0#8]) rest

/-- The text behind the first space, empty when there is none. -/
def text (c : CommandLine) : List Byte := c.args.getD []

theorem length_text (c : CommandLine) : c.text.length ≤ 128 := by
  cases hargs : c.args with
  | none => simp [text, hargs]
  | some a => simpa [text, hargs] using c.length_args a (by simp [hargs])

theorem nul_text (c : CommandLine) : 0#8 ∉ c.text := by
  cases hargs : c.args with
  | none => simp [text, hargs]
  | some a => simpa [text, hargs] using c.nul_args a (by simp [hargs])

/-- The memory behind the name: the NUL, or the space and the argument. -/
def behindName (c : CommandLine) (rest : Buffer) : Buffer :=
  Buffer.ofList (c.args.elim [] fun a => 0x20#8 :: a) (Buffer.ofList [0#8] rest)

theorem memory_eq (c : CommandLine) (rest : Buffer) :
    c.memory rest = Buffer.ofList c.name (c.behindName rest) := by
  rw [memory, bytes, List.append_assoc, Buffer.ofList_append, Buffer.ofList_append, behindName]

/-- The name is followed by a byte that ends it. -/
theorem endsName_behindName (c : CommandLine) (rest : Buffer) :
    endsName (c.behindName rest 0) = true := by
  cases hargs : c.args with
  | none => simp [behindName, hargs, Buffer.ofList, endsName]
  | some a => simp [behindName, hargs, Buffer.ofList, endsName]

/-- What lies behind the byte that ends the name. -/
theorem behindName_memory (c : CommandLine) (rest : Buffer) :
    Ece391.behindName (c.memory rest) c.name.length = fun j => c.behindName rest (j + 1) := by
  funext j
  rw [Ece391.behindName, c.memory_eq, ← Buffer.ofList_length_add c.name (c.behindName rest)]
  congr 1
  omega

/-- The command fits, if the second scan does not run into the memory behind it. -/
theorem shortCommand {c : CommandLine} {rest : Buffer}
    (h : c.args.isSome = true ∨ rest 0 = 0#8) : ShortCommand (c.memory rest) := by
  refine ⟨c.name.length, c.length_name, ?_, fun j hj => ?_, c.text.length, c.length_text, ?_⟩
  · rw [c.memory_eq, Buffer.ofList_length]
    exact c.endsName_behindName rest
  · rw [c.memory_eq, Buffer.ofList_of_lt _ _ hj]
    exact c.endsName_name _ (List.getElem_mem hj)
  · rw [c.behindName_memory, behindName, text]
    cases hargs : c.args with
    | none =>
      rw [hargs, Option.isSome_none] at h
      exact h.resolve_left Bool.false_ne_true
    | some a =>
      show Buffer.ofList (0x20#8 :: a) (Buffer.ofList [0#8] rest) (a.length + 1) = 0#8
      rw [Buffer.ofList_cons_succ, Buffer.ofList_length, Buffer.ofList_cons_zero]

end CommandLine

section Parse

variable {c : CommandLine} {rest : Buffer} {a : List Byte} {cmd : Command}

/-- A scan for NUL over a text without NUL stops behind it. -/
theorem scan_ofList {l : List Byte} {rest : Buffer} {m : ℕ} (hl : 0#8 ∉ l)
    (h : (Buffer.ofList l (Buffer.ofList [0#8] rest)).scan (fun b => b == 0#8) = some m) :
    m = l.length := by
  obtain ⟨-, hend, hfirst⟩ := Buffer.scan_eq_some.mp h
  rcases Nat.lt_trichotomy m l.length with hlt | heq | hgt
  · rw [Buffer.ofList_of_lt _ _ hlt, beq_iff_eq] at hend
    exact absurd (hend ▸ List.getElem_mem hlt) hl
  · exact heq
  · exact absurd (by simp [Buffer.ofList]) (hfirst _ hgt)

/-- The first scan ends where the name does. -/
theorem parseCommand_name (h : parseCommand (c.memory rest) = some cmd) :
    cmd.cmdLeng = c.name.length := by
  obtain ⟨hscan, -⟩ := parseCommand_eq_some h
  rw [c.memory_eq] at hscan
  obtain ⟨-, hend, hfirst⟩ := Buffer.scan_eq_some.mp hscan
  rcases Nat.lt_trichotomy cmd.cmdLeng c.name.length with hlt | heq | hgt
  · rw [Buffer.ofList_of_lt _ _ hlt, c.endsName_name _ (List.getElem_mem hlt)] at hend
    exact absurd hend Bool.false_ne_true
  · exact heq
  · refine absurd ?_ (hfirst _ hgt)
    rw [Buffer.ofList_length]
    exact c.endsName_behindName rest

/-- The argument as `execute` has copied it: the text behind the byte that ended the name. -/
theorem parseCommand_arg (h : parseCommand (c.memory rest) = some cmd) :
    (Buffer.scan (fun j => c.behindName rest (j + 1)) fun b => b == 0#8) = some cmd.argLeng ∧
      cmd.arg = Buffer.overwrite (fun _ => 0#8) (fun j => c.behindName rest (j + 1))
        cmd.argLeng := by
  obtain ⟨-, hscan, -, harg⟩ := parseCommand_eq_some h
  rw [parseCommand_name h, c.behindName_memory] at hscan harg
  exact ⟨hscan, harg⟩

/-- Behind a space lies the argument and its NUL. -/
theorem behindName_some (hargs : c.args = some a) (rest : Buffer) :
    (fun j => c.behindName rest (j + 1)) = Buffer.ofList a (Buffer.ofList [0#8] rest) := by
  funext j
  rw [CommandLine.behindName, hargs, Option.elim_some, Buffer.ofList_cons_succ]

/-- Behind the NUL of a command without an argument lies whatever is in memory there. -/
theorem behindName_none (hargs : c.args = none) (rest : Buffer) :
    (fun j => c.behindName rest (j + 1)) = rest := by
  funext j
  rw [CommandLine.behindName, hargs, Option.elim_none, Buffer.ofList_nil,
    Buffer.ofList_cons_succ, Buffer.ofList_nil]

end Parse

/-! ## What the program gets -/

/-- The bytes of the argument in the PCB of the running process. -/
def argsOf (k : Kernel) : Buffer := (k.procs.pcbs k.procs.currPid).args

/-- A launched program finds the argument `execute` has copied, with zeros behind it up to the end
of the field. -/
theorem argsOf_launched {env : Env} {command stack : Buffer} {k k' : Kernel} {eip : Word}
    (h : execute env command stack k = some (.userMode eip, k')) :
    ∃ cmd old, parseCommand command = some cmd ∧
      argsOf k' = (Buffer.overwrite old (fun _ => 0#8) 129).overwrite cmd.arg cmd.argLeng := by
  cases execute_cases h with
  | @root cmd prog i page hcmd hfind hfree hfirst hpage hload hroot hi =>
    exact ⟨cmd, (k.procs.pcbs i).args, hcmd, by
      simp [argsOf, Kernel.enableIrq, Procs.enter, Procs.fill, Procs.take, Pcb.init]⟩
  | @child cmd prog i parent page hcmd hfind hfree hfirst hpage hload hroot hi hparent =>
    refine ⟨cmd, (k.procs.pcbs i).args, hcmd, ?_⟩
    by_cases hp : i = parent <;>
      simp [argsOf, Kernel.enableIrq, Procs.block, Procs.enter, Procs.fill, Procs.take, Pcb.init,
        hp]

/-- The program gets the argument: with room for it and its NUL, `getargs` succeeds and leaves
exactly these bytes at the start of the buffer. -/
def GetsArgs (k : Kernel) (text : List Byte) : Prop :=
  ∀ (buf : Buffer) (nbytes : Word), (text.length + 1 : ℤ) ≤ nbytes.toInt →
    ∃ buf', getargs k buf nbytes = some (0#32, buf') ∧
      buf'.bytesOf 0 (text.length + 1) = text ++ [0#8]

/-- `getargs` of a process whose argument is a text and its NUL. -/
theorem getsArgs_of_args {k : Kernel} {text : List Byte} (hnul : 0#8 ∉ text)
    (hlen : text.length ≤ 128)
    (hargs : ∀ j < text.length + 1, argsOf k j = Buffer.ofList (text ++ [0#8]) (argsOf k) j) :
    GetsArgs k text := by
  intro buf nbytes hn
  have hbyte : ∀ j, (hj : j < text.length) → argsOf k j = text[j] := by
    intro j hj
    rw [hargs j (by omega), Buffer.ofList_append, Buffer.ofList_of_lt _ _ hj]
  have hend : argsOf k text.length = 0#8 := by
    rw [hargs _ (by omega), Buffer.ofList_append, Buffer.ofList_length, Buffer.ofList_cons_zero]
  have hstrlen : strlen (argsOf k) = some text.length :=
    strlen_text hnul (by omega) hbyte hend
  -- `nbytes` is not negative, so the unsigned comparison is the signed one
  have hnat : text.length + 1 ≤ nbytes.toNat := by
    rw [BitVec.toInt_eq_toNat_cond] at hn
    split_ifs at hn <;> omega
  have hroom : ¬ nbytes < BitVec.ofNat 32 text.length + 1#32 := by
    rw [BitVec.lt_def, ← BitVec.ofNat_add, BitVec.toNat_ofNat]
    omega
  refine ⟨buf.overwrite (argsOf k) nbytes.toNat, ?_, ?_⟩
  · rw [getargs, ← argsOf, hstrlen, Option.bind_eq_bind, Option.bind_some, if_neg hroom]
  · rw [← Buffer.bytesOf_ofList (text ++ [0#8]) (argsOf k), List.length_append,
      List.length_singleton]
    refine Buffer.bytesOf_congr _ _ _ fun j hj => ?_
    rw [Nat.zero_add, Buffer.overwrite_of_lt _ _ _ (by omega), hargs j hj]

/-- A process whose argument starts with another byte does not get the empty string. -/
theorem not_getsArgs_nil {k : Kernel} (h : argsOf k 0 ≠ 0#8) : ¬ GetsArgs k [] := by
  intro hget
  obtain ⟨buf, hget, hbytes⟩ := hget (fun _ => 0#8) 1#32 (by decide)
  rw [getargs, Option.bind_eq_bind, Option.bind_eq_some_iff] at hget
  obtain ⟨len, -, hget⟩ := hget
  split_ifs at hget
  · cases hget
  · cases hget
    apply h
    simpa [Buffer.bytesOf, Buffer.overwrite, argsOf] using hbytes

/-- The second scan of a launch has found a text and its NUL: the program gets this text. -/
theorem getsArgs_of_scan {k : Kernel} {text : List Byte} {rest old arg : Buffer} {argLeng : ℕ}
    (hnul : 0#8 ∉ text) (hlen : text.length ≤ 128)
    (hscan : (Buffer.ofList text (Buffer.ofList [0#8] rest)).scan (fun b => b == 0#8) =
      some argLeng)
    (harg : arg = Buffer.overwrite (fun _ => 0#8) (Buffer.ofList text (Buffer.ofList [0#8] rest))
      argLeng)
    (hargs : argsOf k = (Buffer.overwrite old (fun _ => 0#8) 129).overwrite arg argLeng) :
    GetsArgs k text := by
  have hleng := scan_ofList hnul hscan
  refine getsArgs_of_args hnul hlen fun j hj => ?_
  rw [hargs, hleng, Buffer.ofList_append]
  by_cases hlt : j < text.length
  · rw [Buffer.overwrite_of_lt _ _ _ hlt, harg, hleng, Buffer.overwrite_of_lt _ _ _ hlt,
      Buffer.ofList_of_lt _ _ hlt, Buffer.ofList_of_lt _ _ hlt]
  · obtain rfl : j = text.length := by omega
    rw [Buffer.overwrite_of_le _ _ _ le_rfl, Buffer.overwrite_of_lt _ _ _ (by omega),
      Buffer.ofList_length, Buffer.ofList_cons_zero]

/-- A program that has been launched gets the text behind the first space of its command exactly
when the command has a space or another NUL follows its NUL. -/
theorem getsArgs_launched_iff {env : Env} {c : CommandLine} {rest stack : Buffer} {k k' : Kernel}
    {eip : Word} (h : execute env (c.memory rest) stack k = some (.userMode eip, k')) :
    GetsArgs k' c.text ↔ c.args.isSome = true ∨ rest 0 = 0#8 := by
  obtain ⟨cmd, old, hcmd, hargs⟩ := argsOf_launched h
  obtain ⟨hscan, harg⟩ := parseCommand_arg hcmd
  cases hc : c.args with
  | some a =>
    have ha : c.text = a := by simp [CommandLine.text, hc]
    rw [behindName_some hc] at hscan harg
    refine iff_of_true ?_ (Or.inl rfl)
    rw [ha]
    exact getsArgs_of_scan (ha ▸ c.nul_text) (ha ▸ c.length_text) hscan harg hargs
  | none =>
    have hnil : c.text = [] := by simp [CommandLine.text, hc]
    rw [behindName_none hc] at hscan harg
    rw [hnil]
    by_cases hzero : rest 0 = 0#8
    · -- the second scan stops at once
      have hrest : rest = Buffer.ofList [] (Buffer.ofList [0#8] fun j => rest (j + 1)) := by
        funext j
        cases j with
        | zero => exact hzero
        | succ j => simp
      rw [hrest] at hscan harg
      refine iff_of_true (getsArgs_of_scan ?_ ?_ hscan harg hargs) (Or.inr hzero) <;> simp
    · -- the second scan has run into the bytes behind the NUL
      refine iff_of_false (not_getsArgs_nil ?_) (by simp [hzero])
      obtain ⟨-, hend, -⟩ := Buffer.scan_eq_some.mp hscan
      have hpos : 0 < cmd.argLeng := by
        by_contra hle
        rw [show cmd.argLeng = 0 by omega, beq_iff_eq] at hend
        exact hzero hend
      rw [hargs, Buffer.overwrite_of_lt _ _ _ hpos, harg, Buffer.overwrite_of_lt _ _ _ hpos]
      exact hzero

/-- The command launches a program that gets the text behind its first space, and nothing else. -/
def PassesArgs (env : Env) (c : CommandLine) (rest stack : Buffer) (k : Kernel) : Prop :=
  ∃ eip k', execute env (c.memory rest) stack k = some (.userMode eip, k') ∧ GetsArgs k' c.text

/-- A command that launches a program, if it has been read inside the arrays, passes its argument
exactly when it has a space or another NUL follows its NUL. -/
theorem passesArgs_iff {env : Env} {c : CommandLine} {rest stack : Buffer} {k : Kernel}
    (hlaunch : ShortCommand (c.memory rest) →
      ∃ eip k', execute env (c.memory rest) stack k = some (.userMode eip, k')) :
    PassesArgs env c rest stack k ↔ c.args.isSome = true ∨ rest 0 = 0#8 := by
  constructor
  · rintro ⟨eip, k', hx, hget⟩
    exact (getsArgs_launched_iff hx).mp hget
  · intro hargs
    obtain ⟨eip, k', hx⟩ := hlaunch (CommandLine.shortCommand hargs)
    exact ⟨eip, k', hx, (getsArgs_launched_iff hx).mpr hargs⟩

/-- The command `shell -v`. -/
def shellWithArgument : CommandLine where
  name := ascii "shell"
  args := some (ascii "-v")
  name_ne_nil := by decide +kernel
  length_name := by decide +kernel
  endsName_name := by decide +kernel
  length_args := by decide +kernel
  nul_args := by decide +kernel

/-- The command `shell`. -/
def shellAlone : CommandLine where
  name := ascii "shell"
  args := none
  name_ne_nil := by decide +kernel
  length_name := by decide +kernel
  endsName_name := by decide +kernel
  length_args := by simp
  nul_args := by simp

/-- `shell -v` with the rest of a longer command behind it: the program gets `-v`. -/
theorem getsArgs_shellWithArgument :
    ∃ r k k', entry sampleEnv zeroRam = some (r, k) ∧
      execute sampleEnv (shellWithArgument.memory (commandLine "me0.txt")) (fun _ => 0#8) k =
        some (.userMode 0x08048000#32, k') ∧
      GetsArgs k' (ascii "-v") := by
  have hrun : ((entry sampleEnv zeroRam).bind fun x =>
      (execute sampleEnv (shellWithArgument.memory (commandLine "me0.txt")) (fun _ => 0#8) x.2).map
        Prod.fst) = some (.userMode 0x08048000#32) := by
    decide +kernel
  obtain ⟨⟨r, k⟩, hentry, hrun⟩ := Option.bind_eq_some_iff.mp hrun
  obtain ⟨⟨r', k'⟩, hx, hr⟩ := Option.map_eq_some_iff.mp hrun
  subst hr
  obtain ⟨_, _, hx', hget⟩ := (passesArgs_iff fun _ => ⟨_, _, hx⟩).mpr (Or.inl rfl)
  cases hx.symm.trans hx'
  exact ⟨r, k, k', hentry, hx, hget⟩

/-- `shell` in the line buffer that held `cat frame0.txt` before: the program gets `ame0.txt`. -/
theorem not_getsArgs_shellAlone :
    ∃ r k k', entry sampleEnv zeroRam = some (r, k) ∧
      execute sampleEnv (shellAlone.memory (commandLine "ame0.txt")) (fun _ => 0#8) k =
        some (.userMode 0x08048000#32, k') ∧
      ¬ GetsArgs k' shellAlone.text := by
  have hrun : ((entry sampleEnv zeroRam).bind fun x =>
      (execute sampleEnv (shellAlone.memory (commandLine "ame0.txt")) (fun _ => 0#8) x.2).map
        fun y => (y.1, argsOf y.2 0)) = some (.userMode 0x08048000#32, 0x61#8) := by
    decide +kernel
  obtain ⟨⟨r, k⟩, hentry, hrun⟩ := Option.bind_eq_some_iff.mp hrun
  obtain ⟨⟨r', k'⟩, hx, hres⟩ := Option.map_eq_some_iff.mp hrun
  obtain ⟨hr, hbyte⟩ := Prod.mk.inj hres
  subst hr
  refine ⟨r, k, k', hentry, hx, not_getsArgs_nil ?_⟩
  rw [hbyte]
  decide

end Ece391
