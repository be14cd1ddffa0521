import Ece391Os.Process.Execute

/-!
# `halt`

`halt` of `syscall.c`, as one step. `haltChild` is its straight part, which returns to the parent;
a root shell first runs `execute("shell")` on its own pid and reaches the straight part only when
that call returns. `halt_cases` says once what a call can do.
-/

namespace Ece391

/-- How `halt` ends: in a new root shell, or in `exit_to_shell` with the value the waiting call of
`execute` returns and the process it belongs to. -/
inductive HaltResult
  | respawned (eip : Word)
  | exitToShell (status : Byte) (pid : Pid)
  deriving DecidableEq, Repr

/-- `'You cannot leave the matrix' -The Architect` -/
def architect : List Byte := ascii "'You cannot leave the matrix' -The Architect\n"

namespace Procs

/-- `active_proc_num--` -/
def decActive (ps : Procs) : Procs := { ps with activeProcNum := ps.activeProcNum - 1#8 }

/-- A root shell gives up its pid. -/
def freeRoot (ps : Procs) : Procs :=
  { ps with
    pcbStatusArray := Function.update ps.pcbStatusArray ps.currPid 0#8
    activeRootShell := ps.activeRootShell - 1#8 }

/-- The current process is freed and its parent, whose PCB is that of `parent`, takes over. -/
def leave (ps : Procs) (parent : Pid) : Procs :=
  { ps with
    pcbStatusArray := Function.update ps.pcbStatusArray ps.currPid 0#8
    tss := { esp0 := (ps.pcbs parent).theEsp, ss0 := (ps.pcbs parent).theSs.setWidth 16 }
    currPid := (ps.pcbs parent).thePid
    terminal := Function.update ps.terminal ps.currTerm
      { ps.terminal ps.currTerm with pid := (ps.pcbs parent).thePid }
    cr3 := (ps.pcbs parent).thePid }

end Procs

/-- `halt` from `curr_pcb_ptr = ..` on; `none` when the parent is null and is followed. -/
def haltChild (status : Byte) (k : Kernel) : Option (HaltResult × Kernel) := do
  let parent ← (k.procs.pcbs k.procs.currPid).parentPcb
  let ps := k.procs.leave parent
  let con := k.con.setTerm ps.currTerm fun term => { term with pid := ps.currPid }
  some (.exitToShell status ps.currPid, { k with procs := ps, con }.enableIrq 0#32)

/-- `halt`. `stack` is the uninitialized memory of the call of `execute`. -/
def halt (env : Env) (status : Byte) (stack : Buffer) (k : Kernel) :
    Option (HaltResult × Kernel) := do
  let k := { k with procs := k.procs.decActive }
  if IsRootPid k.procs.currPid then
    let k ← k.puts architect
    let k := { k with procs := k.procs.freeRoot }
    let (result, k) ← execute env (cString "shell" env.haltShellAfter) stack k
    match result with
    | .userMode eip => some (.respawned eip, k)
    | _ => haltChild status k
  else haltChild status k

theorem haltChild_eq_some {status : Byte} {k k' : Kernel} {r : HaltResult} :
    haltChild status k = some (r, k') ↔
      ∃ parent, (k.procs.pcbs k.procs.currPid).parentPcb = some parent ∧
        r = .exitToShell status (k.procs.leave parent).currPid ∧
        k' = { k with
          procs := k.procs.leave parent
          con := k.con.setTerm k.procs.currTerm fun term =>
            { term with pid := (k.procs.leave parent).currPid } }.enableIrq 0#32 := by
  rw [haltChild, Option.bind_eq_bind, Option.bind_eq_some_iff]
  constructor
  · rintro ⟨parent, hparent, h⟩
    cases h
    exact ⟨parent, hparent, rfl, rfl⟩
  · rintro ⟨parent, hparent, rfl, rfl⟩
    exact ⟨parent, hparent, rfl⟩

/-- A root shell prints its message on its own screen and runs `execute` without itself. -/
theorem halt_root {env : Env} {status : Byte} {stack : Buffer} {k k' : Kernel} {r : HaltResult}
    (hroot : IsRootPid k.procs.currPid) (h : halt env status stack k = some (r, k')) :
    ∃ con k₁ result,
      k.con.puts k.procs.currTerm k.procs.videoMapping architect = some con ∧
      execute env (cString "shell" env.haltShellAfter) stack
        { k with procs := k.procs.decActive.freeRoot, con } = some (result, k₁) ∧
      ((∃ eip, result = .userMode eip ∧ r = .respawned eip ∧ k' = k₁) ∨
        (∀ eip, result ≠ .userMode eip) ∧ haltChild status k₁ = some (r, k')) := by
  rw [halt] at h
  simp only [Option.bind_eq_bind] at h
  rw [if_pos (show IsRootPid k.procs.decActive.currPid from hroot), Option.bind_eq_some_iff] at h
  obtain ⟨k₀, hk₀, h⟩ := h
  obtain ⟨con, hcon, rfl⟩ := Option.map_eq_some_iff.mp hk₀
  obtain ⟨⟨result, k₁⟩, hk₁, h⟩ := Option.bind_eq_some_iff.mp h
  refine ⟨con, k₁, result, hcon, hk₁, ?_⟩
  -- only a jump to user mode leaves `halt`; it falls through to its end otherwise
  cases result with
  | userMode eip =>
    cases h
    exact Or.inl ⟨eip, rfl, rfl, rfl⟩
  | exit e => exact Or.inr ⟨fun _ h => by simp at h, h⟩
  | rootShellReady => exact Or.inr ⟨fun _ h => by simp at h, h⟩

/-- Any other process returns to its parent. -/
theorem halt_child {env : Env} {status : Byte} {stack : Buffer} {k : Kernel}
    (hroot : ¬ IsRootPid k.procs.currPid) :
    halt env status stack k = haltChild status { k with procs := k.procs.decActive } :=
  if_neg hroot

end Ece391
