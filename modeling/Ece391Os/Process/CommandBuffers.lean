import Ece391Os.Process.Boot

/-!
# The buffers of `execute`

`execute` copies the name of a command to `filename[32]` and the text behind it to `arg[128]`, each
up to a byte of the command, and checks the length of the name afterwards. The text is copied once
more, to the `args` of the PCB, which has 129 bytes.

* `commandStores` lists the stores of a call to the three arrays. `replay_commandStores` and
  `args_init` give what they leave there.
* `StaysInBuffers`: the stores are inside the arrays, and a command that is too long makes the call
  return -1 without a change of the processes.
* `staysInBuffers_iff`: this is so exactly for the commands that fit.
  `not_staysInBuffers_long_name` is a name of 33 bytes.
-/

namespace Ece391

/-- The stores of a call of `execute` to its arrays. -/
structure CommandStores where
  filename : List (ℕ × Byte)
  arg : List (ℕ × Byte)
  pcbArgs : List (ℕ × Byte)

/-- The stores to `exec_pcb->args`, if `execute` comes to the PCB of a new process. -/
def pcbArgsStores (env : Env) (cmd : Command) (stack : Buffer) (k : Kernel) : List (ℕ × Byte) :=
  match findProgram env.img cmd stack with
  | .error _ => []
  | .ok prog =>
    match findFree k.procs.pcbStatusArray env.statusAfter with
    | some (some i) =>
      if LoadFails env.img prog.inodeNum (k.procs.progPage i) then []
      else
        Buffer.copyStores (fun _ => 0#8) 129 ++ Buffer.copyStores cmd.arg cmd.argLeng
    | _ => []

/-- The stores of a call: both arrays are cleared, then the loops run. Those to the PCB are listed
if the loops have stayed in their arrays. -/
def commandStores (env : Env) (command stack : Buffer) (k : Kernel) : CommandStores where
  filename := Buffer.copyStores (fun _ => 0#8) 32 ++ command.scanStores endsName
  arg := Buffer.copyStores (fun _ => 0#8) 128 ++
    (command.scan endsName).elim [] fun cmdLeng =>
      (behindName command cmdLeng).scanStores fun b => b == 0#8
  pcbArgs := (parseCommand command).elim [] fun cmd => pcbArgsStores env cmd stack k

/-- The stores are to indices of the arrays. -/
structure CommandStores.InBounds (s : CommandStores) : Prop where
  filename : ∀ st ∈ s.filename, st.1 < 32
  arg : ∀ st ∈ s.arg, st.1 < 128
  pcbArgs : ∀ st ∈ s.pcbArgs, st.1 < 129

/-- The name is longer than 32 bytes. -/
def LongName (command : Buffer) : Prop := ∀ j ≤ 32, endsName (command j) = false

/-- The text behind the first space is longer than 128 bytes. -/
def LongArguments (command : Buffer) : Prop :=
  ∃ n, command n = 0x20#8 ∧ (∀ j < n, endsName (command j) = false) ∧
    ∀ j ≤ 128, behindName command n j ≠ 0#8

/-- A call stores inside its arrays, and returns -1 with the processes as they were for a command
that is too long. -/
def StaysInBuffers (env : Env) (command stack : Buffer) (k : Kernel) : Prop :=
  (commandStores env command stack k).InBounds ∧
    (LongName command ∨ LongArguments command →
      ∃ e k', execute env command stack k = some (.exit e, k') ∧
        (ExecResult.exit e).retval = some (-1#32) ∧ k'.procs = k.procs)

variable {env : Env} {command stack : Buffer} {k : Kernel} {cmd : Command}

/-- What the loops leave in the local arrays. -/
theorem replay_commandStores (h : parseCommand command = some cmd) :
    Buffer.replay (fun _ => 0#8) (commandStores env command stack k).filename = cmd.filename ∧
      Buffer.replay (fun _ => 0#8) (commandStores env command stack k).arg = cmd.arg := by
  obtain ⟨hname, hargs, hfilename, harg⟩ := parseCommand_eq_some h
  -- clearing an array that holds zeros
  have hzero : ∀ n, Buffer.overwrite (fun _ => 0#8) (fun _ => 0#8) n = fun _ => 0#8 := by
    intro n
    funext j
    simp [Buffer.overwrite]
  have hbehind : (behindName command cmd.cmdLeng).scan (fun b => b == 0#8) = some cmd.argLeng :=
    hargs
  constructor
  · rw [commandStores, Buffer.replay_append, Buffer.replay_copyStores, hzero,
      Buffer.scanStores_eq, hname, Option.getD_some, Buffer.replay_copyStores, hfilename]
  · rw [commandStores, Buffer.replay_append, Buffer.replay_copyStores, hzero, hname,
      Option.elim_some, Buffer.scanStores_eq, hbehind, Option.getD_some,
      Buffer.replay_copyStores, harg]

/-- What the stores to the PCB leave in its `args`. -/
theorem args_init (pcb : Pcb) (i : Pid) (parent : Option Pid) (cmd : Command) :
    (pcb.init i parent cmd).args = pcb.args.replay
      (Buffer.copyStores (fun _ => 0#8) 129 ++ Buffer.copyStores cmd.arg cmd.argLeng) := by
  rw [Buffer.replay_append, Buffer.replay_copyStores, Buffer.replay_copyStores]
  rfl

/-- The stores to the PCB are inside its `args`. -/
theorem forall_pcbArgsStores_lt : ∀ st ∈ pcbArgsStores env cmd stack k, st.1 < 129 := by
  rw [pcbArgsStores]
  cases findProgram env.img cmd stack with
  | error e => exact List.forall_mem_nil _
  | ok prog =>
    rcases findFree k.procs.pcbStatusArray env.statusAfter with _ | _ | i
    · exact List.forall_mem_nil _
    · exact List.forall_mem_nil _
    · simp only
      split_ifs
      · exact List.forall_mem_nil _
      · rw [List.forall_mem_append, Buffer.forall_copyStores_lt, Buffer.forall_copyStores_lt]
        exact ⟨le_rfl, cmd.argLeng_le.trans (by decide)⟩

/-- The loops stop inside the arrays exactly for a command that fits. -/
theorem inBounds_iff : (commandStores env command stack k).InBounds ↔ ShortCommand command := by
  constructor
  · rintro ⟨hfilename, harg, -⟩
    rw [commandStores, List.forall_mem_append, Buffer.scanStores_eq,
      Buffer.forall_copyStores_lt, Buffer.forall_copyStores_lt] at hfilename
    -- without an end of the name in the command the loop would not stop in `filename`
    cases hname : command.scan endsName with
    | none => simp [hname] at hfilename
    | some n =>
      rw [commandStores, List.forall_mem_append, hname, Option.elim_some, Buffer.scanStores_eq,
        Buffer.forall_copyStores_lt, Buffer.forall_copyStores_lt] at harg
      rw [hname, Option.getD_some] at hfilename
      obtain ⟨-, hend, hfirst⟩ := Buffer.scan_eq_some.mp hname
      refine ⟨n, hfilename.2, hend, fun j hj => Bool.not_eq_true _ ▸ hfirst j hj, ?_⟩
      -- nor the second one in `arg`
      cases hbehind : (behindName command n).scan fun b => b == 0#8 with
      | none => simp [hbehind] at harg
      | some m =>
        rw [hbehind, Option.getD_some] at harg
        exact ⟨m, harg.2, beq_iff_eq.mp (Buffer.scan_eq_some.mp hbehind).2.1⟩
  · intro hshort
    obtain ⟨cmd, hcmd⟩ := hshort.exists_parse
    obtain ⟨hname, hbehind, -⟩ := parseCommand_eq_some hcmd
    refine ⟨?_, ?_, ?_⟩
    · rw [commandStores, List.forall_mem_append, Buffer.scanStores_eq, hname, Option.getD_some,
        Buffer.forall_copyStores_lt, Buffer.forall_copyStores_lt]
      exact ⟨le_rfl, cmd.cmdLeng_le⟩
    · rw [commandStores, List.forall_mem_append, hname, Option.elim_some, Buffer.scanStores_eq,
        hbehind, Option.getD_some, Buffer.forall_copyStores_lt, Buffer.forall_copyStores_lt]
      exact ⟨le_rfl, cmd.argLeng_le⟩
    · rw [commandStores, hcmd, Option.elim_some]
      exact forall_pcbArgsStores_lt

/-- A command that fits has no long name, and no long text behind it. -/
theorem ShortCommand.not_long (h : ShortCommand command) :
    ¬ (LongName command ∨ LongArguments command) := by
  obtain ⟨n, hn, hend, hfirst, m, hm, hnul⟩ := h
  rintro (hlong | ⟨n', hspace, hfirst', hlong⟩)
  · rw [hlong n hn] at hend
    exact absurd hend Bool.false_ne_true
  · have hend' : endsName (command n') = true := by rw [hspace]; rfl
    -- the first space is where the name ends
    have hsame : n' = n := by
      rcases lt_trichotomy n' n with hlt | heq | hlt
      · rw [hfirst n' hlt] at hend'
        exact absurd hend' Bool.false_ne_true
      · exact heq
      · rw [hfirst' n hlt] at hend
        exact absurd hend Bool.false_ne_true
    subst hsame
    exact hlong m hm hnul

/-- A call stays in its buffers exactly for a command that fits. -/
theorem staysInBuffers_iff :
    StaysInBuffers env command stack k ↔ ShortCommand command := by
  rw [StaysInBuffers, inBounds_iff]
  exact and_iff_left_of_imp fun hshort hlong => absurd hlong hshort.not_long

/-- The root shell of terminal 0 executes a name of 33 bytes. -/
theorem not_staysInBuffers_long_name :
    ∃ r k, entry sampleEnv zeroRam = some (r, k) ∧
      ¬ StaysInBuffers sampleEnv (commandLine "aaaaaaaaaaaaaaaaaaaaaaaaaaaaaaaaa")
        (fun _ => 0#8) k := by
  have hrun : (entry sampleEnv zeroRam).isSome = true := by decide +kernel
  obtain ⟨⟨r, k⟩, hentry⟩ := Option.isSome_iff_exists.mp hrun
  refine ⟨r, k, hentry, fun hstays => ?_⟩
  obtain ⟨n, hn, hend, -⟩ := inBounds_iff.mp hstays.1
  -- no byte up to the last one of the array ends the name
  have hname : ∀ j ≤ 32,
      endsName (commandLine "aaaaaaaaaaaaaaaaaaaaaaaaaaaaaaaaa" j) = false := by
    decide +kernel
  rw [hname n hn] at hend
  exact absurd hend Bool.false_ne_true

end Ece391
