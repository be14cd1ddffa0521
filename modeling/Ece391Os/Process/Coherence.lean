import Ece391Os.Lib.Transition
import Ece391Os.Process.Boot

/-!
# Coherence of the process tree

* `Coherent ps` says that the globals of the scheduler agree with the table and with the parent
  pointers, in the source's own terms.
* `Exact.coherent`: it is what the invariant of `Process.Forest` means.
* `always_coherent_iff`: the table stays coherent along a run exactly as long as no call of
  `execute` fails to load a program it has taken a process for; that exit does not give the process
  back.
-/

namespace Ece391

open Transition

/-- The table, the counters, the current context and the parent pointers agree. -/
structure Coherent (ps : Procs) : Prop where
  root_busy : ∀ p, IsRootPid p → ps.pcbStatusArray p ≠ 0#8
  activeRootShell : ps.activeRootShell = 3#8
  activeProcNum : ps.activeProcNum.toNat =
    (Finset.univ.filter fun p => ps.pcbStatusArray p ≠ 0#8).card
  currPid : ps.currPid = (ps.terminal ps.currTerm).pid
  cr3 : ps.cr3 = ps.currPid
  /-- From the process of a terminal, the parent pointers visit distinct busy processes and end at
  the root shell of that terminal. -/
  chain : ∀ t, ∃ l, Walk ps.parent IsRootPid (ps.terminal t).pid l ∧ l.Nodup ∧
    (∀ p ∈ l, ps.pcbStatusArray p ≠ 0#8) ∧ l.getLast? = some (rootPid t)
  /-- No process is on the chains of two terminals. -/
  disjoint : ∀ t t', t ≠ t' → ∀ l l', Walk ps.parent IsRootPid (ps.terminal t).pid l →
    Walk ps.parent IsRootPid (ps.terminal t').pid l' → ∀ p ∈ l, p ∉ l'

theorem Exact.coherent {ps : Procs} {S : Forest} (h : Exact ps S) : Coherent ps where
  root_busy _ hp := h.root_busy hp
  activeRootShell := h.activeRootShell
  activeProcNum := by
    rw [h.activeProcNum_eq, BitVec.toNat_ofNat, Nat.mod_eq_of_lt]
    have hle := Finset.card_le_univ (Finset.univ.filter fun p => ps.pcbStatusArray p ≠ 0#8)
    rw [Fintype.card_fin] at hle
    omega
  currPid := h.currPid
  cr3 := h.cr3
  chain t := ⟨S.stack t, h.walk t, S.nodup t, h.busy t, S.last t⟩
  disjoint t t' htt' l l' hl hl' := by
    rw [hl.unique (h.walk t), hl'.unique (h.walk t')]
    exact S.disjoint t t' htt'

/-- The event is a call of `execute` that takes a free process for a file without bytes: the name is
accepted because the header check sees what an earlier call has left on the stack. -/
def LeaksProcess (env : Env) (k : Kernel) : ProcessEvent → Prop
  | .execute command stack => (∃ p, k.procs.pcbStatusArray p = 0#8) ∧
      ∃ cmd, parseCommand command = some cmd ∧ NamesEmptyFile env.img cmd stack
  | _ => False

section

variable {env : Env} {k k' : Kernel} {S : Forest} {e : ProcessEvent}

/-- Every other event keeps the table exact. -/
theorem Exact.processStep (hshell : ValidShell env.img) (h : Exact k.procs S)
    (hleak : ¬ LeaksProcess env k e) (hstep : processStep env k e = some k') :
    ∃ S', Exact k'.procs S' := by
  cases e with
  | execute command stack =>
    obtain ⟨⟨r, _⟩, hx, rfl⟩ := Option.map_eq_some_iff.mp hstep
    by_cases hfree : ∃ p, k.procs.pcbStatusArray p = 0#8
    · exact h.execute (fun cmd hcmd hname => hleak ⟨hfree, cmd, hcmd, hname⟩) hx
    · -- with every process busy the call changes no process
      rcases h.execute_cases h.newParent_eq hx with ⟨_, -, hprocs⟩ |
        ⟨_, _, i, _, -, -, -, hi, -⟩ | ⟨_, _, i, _, -, hi, -⟩
      · exact ⟨S, hprocs ▸ h⟩
      · exact absurd ⟨i, hi⟩ hfree
      · exact absurd ⟨i, hi⟩ hfree
  | halt status stack =>
    obtain ⟨⟨r, _⟩, hx, rfl⟩ := Option.map_eq_some_iff.mp hstep
    exact h.halt hshell hx
  | tick esp =>
    cases hstep
    refine ⟨S, h.toRepresents.contextSwitch esp, fun p hp => h.mem_of_busy p ?_⟩
    rw [procs_contextSwitch] at hp
    split_ifs at hp <;> exact hp
  | switchTerm t =>
    cases hstep
    refine ⟨S, h.toRepresents.switchTerm t, fun p hp => h.mem_of_busy p ?_⟩
    rw [procs_switchTerm] at hp
    split_ifs at hp <;> exact hp

/-- The first free process of a table that has one. -/
theorem exists_first_free {status : Pid → Byte} (h : ∃ p, status p = 0#8) :
    ∃ i, status i = 0#8 ∧ ∀ j < i, status j ≠ 0#8 := by
  obtain ⟨i, hi, hmin⟩ := wellFounded_lt.has_min {p : Pid | status p = 0#8} h
  exact ⟨i, hi, fun j hj hzero => hmin j hzero hj⟩

/-- After a failed load the table has one busy process more than the counter says. -/
theorem Exact.not_coherent_of_leaksProcess (h : Exact k.procs S) (hleak : LeaksProcess env k e) :
    ∃ k', Ece391.processStep env k e = some k' ∧ ¬ Coherent k'.procs := by
  cases e with
  | execute command stack =>
    obtain ⟨hfree, cmd, hcmd, hname⟩ := hleak
    obtain ⟨i, hi, hfirst⟩ := exists_first_free hfree
    obtain ⟨prog, hfind, hload⟩ := (namesEmptyFile_iff (k.procs.progPage i)).mp hname
    obtain ⟨k', page, hx, hprocs⟩ := execute_loadFail hcmd hfind hi hfirst hload
    refine ⟨k', by rw [Ece391.processStep, hx]; rfl, fun hco => ?_⟩
    have hnum := hco.activeProcNum
    have hold := h.coherent.activeProcNum
    have hinsert : (Finset.univ.filter fun p => k'.procs.pcbStatusArray p ≠ 0#8) =
        insert i (Finset.univ.filter fun p => k.procs.pcbStatusArray p ≠ 0#8) := by
      ext p
      rw [hprocs, Finset.mem_insert, Finset.mem_filter_univ, Finset.mem_filter_univ]
      by_cases hp : p = i <;> simp [Procs.take, Procs.flushTlb, hp]
    rw [hinsert, Finset.card_insert_of_notMem (by simpa using hi)] at hnum
    rw [hprocs] at hnum
    have hsame : ((k.procs.take i page).flushTlb k.procs.currPid).activeProcNum =
        k.procs.activeProcNum := rfl
    rw [hsame] at hnum
    omega
  | halt status stack => exact hleak.elim
  | tick esp => exact hleak.elim
  | switchTerm t => exact hleak.elim

end

/-- From boot, the process tree and the current context stay coherent exactly as long as no call of
`execute` takes a process for an empty file. -/
theorem always_coherent_iff {env : Env} {ram : BootRam} {r : ExecResult} {k₀ : Kernel}
    (hshell : ValidShell env.img) (hentry : entry env ram = some (r, k₀))
    (es : List ProcessEvent) :
    Always (processStep env) (fun k => Coherent k.procs) k₀ es ↔
      Along (processStep env) (fun k e => ¬ LeaksProcess env k e) k₀ es := by
  refine always_iff_along (I := fun k => ∃ S, Exact k.procs S) ?_ ?_ ?_
    ⟨bootForest, (entry_spec hshell hentry).exact⟩
  · rintro k ⟨S, hS⟩
    exact hS.coherent
  · rintro k e k' ⟨S, hS⟩ hleak hstep
    exact hS.processStep hshell hleak hstep
  · rintro k e ⟨S, hS⟩ hleak
    exact hS.not_coherent_of_leaksProcess (not_not.mp hleak)

/-- Launching a program and leaving it keeps the sample system coherent. -/
theorem always_coherent_sample :
    ∃ r k₀, entry sampleEnv zeroRam = some (r, k₀) ∧
      Always (processStep sampleEnv) (fun k => Coherent k.procs) k₀
        [.execute (commandLine "shell") (fun _ => 0#8), .switchTerm 1, .tick 0x1000#32,
          .halt 0#8 (fun _ => 0#8)] := by
  obtain ⟨⟨r, k₀⟩, hentry⟩ := Option.isSome_iff_exists.mp entry_sampleEnv
  refine ⟨r, k₀, hentry, (always_coherent_iff validShell_sampleImage hentry _).mpr ?_⟩
  refine along_of_forall (P := fun e => ∀ k, ¬ LeaksProcess sampleEnv k e) ?_ k₀ |>.mono
    fun k e h => h k
  intro e he k hleak
  simp only [List.mem_cons, List.not_mem_nil, or_false] at he
  rcases he with rfl | rfl | rfl | rfl
  · obtain ⟨-, cmd, -, -, -, -, hmagic, -⟩ := hleak
    exact absurd hmagic (by decide)
  all_goals exact hleak

/-- A program is launched and left, then `empty` is executed over the header the first launch has
read: the process taken for it stays busy, and the counter no longer counts the busy processes. -/
theorem not_coherent_empty_file :
    sampleEnv.statusAfter = 0#8 ∧ ValidShell sampleEnv.img ∧ ElfFilesValid sampleEnv.img ∧
      ∃ r k₀ k, entry sampleEnv zeroRam = some (r, k₀) ∧
        exec (processStep sampleEnv) k₀
          [.execute (commandLine "shell") (fun _ => 0#8), .halt 0#8 (fun _ => 0#8),
            .execute (commandLine "empty") staleHeader] = some k ∧
        ¬ Coherent k.procs := by
  refine ⟨rfl, validShell_sampleImage, by decide +kernel, ?_⟩
  have hrun : ((entry sampleEnv zeroRam).bind fun x => (exec (processStep sampleEnv) x.2
      [.execute (commandLine "shell") (fun _ => 0#8), .halt 0#8 (fun _ => 0#8),
        .execute (commandLine "empty") staleHeader]).map fun k =>
      (k.procs.activeProcNum.toNat,
        (Finset.univ.filter fun p => k.procs.pcbStatusArray p ≠ 0#8).card)) = some (3, 4) := by
    decide +kernel
  obtain ⟨⟨r, k₀⟩, hentry, hrun⟩ := Option.bind_eq_some_iff.mp hrun
  obtain ⟨k, hk, hcount⟩ := Option.map_eq_some_iff.mp hrun
  refine ⟨r, k₀, k, hentry, hk, fun hco => ?_⟩
  obtain ⟨hnum, hcard⟩ := Prod.mk.inj hcount
  have heq := hco.activeProcNum
  rw [hnum, hcard] at heq
  exact absurd heq (by decide)

end Ece391
