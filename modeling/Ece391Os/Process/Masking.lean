import Ece391Os.Process.Boot

/-!
# The timer across a failed `execute`

`execute` masks IRQ 0 on entry. The exits `clear`, `maximumProcesses` and `loadFail` unmask it
whether or not it was masked before; the four exits of the checks in between (a name of illegal
length, no such file, unreadable, not ELF) return without unmasking it.

* `masterMask_exit`: the mask after every exit.
* `restoresMask_iff`: when a call that launches nothing returns with the mask of before. The command
  has to fit the buffers of `execute`.
-/

namespace Ece391

/-- `execute` refuses the command at one of its checks, which leaves IRQ 0 masked. -/
def Refused (img : FsImage) (command stack : Buffer) : Prop :=
  ∃ cmd, parseCommand command = some cmd ∧
    (cmd.cmdLeng = 0 ∨
      strncmp (cString "clear" fun _ => 0#8) cmd.filename 5 ≠ 0 ∧
        (img.readDentryByName cmd.filename = none ∨
          ∃ entry, img.readDentryByName cmd.filename = some entry ∧
            ((img.readData entry.inodeNum 0#32 stack 50#32).1 = -1#32 ∨
              ¬ HasMagic (img.readData entry.inodeNum 0#32 stack 50#32).2)))

section

variable {img : FsImage} {env : Env} {cmd : Command} {command stack : Buffer} {k k' : Kernel}
  {e : ExecExit} {prog : Program} {s : List Byte}

theorem pic_puts (h : k.puts s = some k') : k'.pic = k.pic := by
  obtain ⟨con, -, rfl⟩ := Option.map_eq_some_iff.mp h
  rfl

theorem masterMask_exitEarly (h : exitEarly e (k.disableIrq 0#32) = some k') :
    k'.pic.masterMask = if e = .clear then (k.pic.masterMask ||| 1#8) &&& 0xFE#8
      else k.pic.masterMask ||| 1#8 := by
  rw [exitEarly] at h
  split_ifs at h ⊢ with he
  · cases h
    rfl
  · rw [pic_puts h]
    rfl

/-- The exits of the checks are the refused commands and `clear`. -/
theorem refused_of_error (hcmd : parseCommand command = some cmd)
    (hfind : findProgram img cmd stack = .error e) (he : e ≠ .clear) :
    Refused img command stack := by
  refine ⟨cmd, hcmd, ?_⟩
  -- the checks in the order of the source
  rw [findProgram] at hfind
  split_ifs at hfind with hlen hclear
  · exact Or.inl (hlen.resolve_left (not_lt.mpr cmd.cmdLeng_le))
  · cases hfind
    exact absurd rfl he
  · refine Or.inr ⟨hclear, ?_⟩
    cases hentry : img.readDentryByName cmd.filename with
    | none => exact Or.inl rfl
    | some entry =>
      simp only [hentry] at hfind
      split_ifs at hfind with hret hmagic
      · exact Or.inr ⟨entry, rfl, Or.inl hret⟩
      · exact Or.inr ⟨entry, rfl, Or.inr hmagic⟩

theorem findProgram_eq_clear (h : findProgram img cmd stack = .error .clear) :
    ¬ (cmd.cmdLeng > 32 ∨ cmd.cmdLeng = 0) ∧
      strncmp (cString "clear" fun _ => 0#8) cmd.filename 5 = 0 := by
  by_cases hlen : cmd.cmdLeng > 32 ∨ cmd.cmdLeng = 0
  · rw [findProgram, if_pos hlen] at h
    cases h
  · refine ⟨hlen, ?_⟩
    by_contra hclear
    rw [findProgram, if_neg hlen, if_neg hclear] at h
    cases hentry : img.readDentryByName cmd.filename with
    | none => simp [hentry] at h
    | some entry =>
      simp only [hentry] at h
      split_ifs at h
      all_goals cases h

theorem not_refused_of_clear (hcmd : parseCommand command = some cmd)
    (hfind : findProgram img cmd stack = .error .clear) : ¬ Refused img command stack := by
  rintro ⟨cmd', hcmd', hrefused⟩
  obtain rfl := Option.some.inj (hcmd.symm.trans hcmd')
  obtain ⟨hlen, hclear⟩ := findProgram_eq_clear hfind
  rcases hrefused with hzero | ⟨hne, -⟩
  · exact hlen (Or.inr hzero)
  · exact hne hclear

theorem not_refused_of_ok (hcmd : parseCommand command = some cmd)
    (hfind : findProgram img cmd stack = .ok prog) : ¬ Refused img command stack := by
  rintro ⟨cmd', hcmd', hrefused⟩
  obtain rfl := Option.some.inj (hcmd.symm.trans hcmd')
  obtain ⟨hlen, -, entry, hentry, hinode, hbad, hmagic⟩ := findProgram_eq_ok hfind
  -- each way to be refused contradicts a check that was passed
  rcases hrefused with hzero | ⟨-, hnone | ⟨entry', hentry', hret | hnomagic⟩⟩
  · exact hlen (Or.inr hzero)
  · rw [hentry] at hnone
    cases hnone
  · obtain rfl := Option.some.inj (hentry.symm.trans hentry')
    exact (readData_ne_neg_one_iff stack (by decide)).mpr (hinode ▸ hbad) hret
  · obtain rfl := Option.some.inj (hentry.symm.trans hentry')
    exact hnomagic (hinode ▸ hmagic)

open Classical in
/-- The master mask after `execute` has returned without a launch. -/
theorem masterMask_exit (h : execute env command stack k = some (.exit e, k')) :
    k'.pic.masterMask = if Refused env.img command stack then k.pic.masterMask ||| 1#8
      else (k.pic.masterMask ||| 1#8) &&& 0xFE#8 := by
  -- `clear` and the exits after the last check unmask IRQ 0, the refusals do not
  cases execute_cases h with
  | early hcmd hfind hk' =>
    rw [masterMask_exitEarly hk']
    by_cases he : e = .clear
    · subst he
      rw [if_pos rfl, if_neg (not_refused_of_clear hcmd hfind)]
    · rw [if_neg he, if_pos (refused_of_error hcmd hfind he)]
  | maximumProcesses hcmd hfind hbusy hk' =>
    rw [if_neg (not_refused_of_ok hcmd hfind), Kernel.enableIrq,
      I8259.masterMask_enableIrq_zero, pic_puts hk']
    rfl
  | loadFail hcmd hfind hfree hfirst hpage hload =>
    rw [if_neg (not_refused_of_ok hcmd hfind)]
    rfl

end

/-- The call returns without having launched a program, and with the master mask of before. -/
def RestoresMask (env : Env) (command stack : Buffer) (k : Kernel) : Prop :=
  ∃ e k', execute env command stack k = some (.exit e, k') ∧ k'.pic.masterMask = k.pic.masterMask

/-- A call that launches no program, if the command has been read inside the arrays, restores the
master mask exactly if the command fits, and either IRQ 0 was masked and a check has refused the
command, or it was not and none has. -/
theorem restoresMask_iff {env : Env} {command stack : Buffer} {k : Kernel}
    (hexit : ShortCommand command → ∃ e k', execute env command stack k = some (.exit e, k')) :
    RestoresMask env command stack k ↔ ShortCommand command ∧
      (k.pic.masterMask.getLsbD 0 = true ↔ Refused env.img command stack) := by
  have hmask : ∀ {e k'}, execute env command stack k = some (.exit e, k') →
      (k'.pic.masterMask = k.pic.masterMask ↔
        (k.pic.masterMask.getLsbD 0 = true ↔ Refused env.img command stack)) := by
    intro e k' hx
    rw [masterMask_exit hx]
    by_cases hrefused : Refused env.img command stack
    · rw [if_pos hrefused, I8259.or_one_eq_self_iff]
      simp [hrefused]
    · rw [if_neg hrefused, I8259.or_one_and_eq_self_iff]
      simp [hrefused]
  constructor
  · rintro ⟨e, k', hx, heq⟩
    exact ⟨shortCommand_of_execute hx, (hmask hx).mp heq⟩
  · rintro ⟨hshort, hiff⟩
    obtain ⟨e, k', hx⟩ := hexit hshort
    exact ⟨e, k', hx, (hmask hx).mpr hiff⟩

/-- `clear` with the timer running: the mask is unchanged. -/
theorem masterMask_clear_sample :
    ∃ r k k', entry sampleEnv zeroRam = some (r, k) ∧
      execute sampleEnv (commandLine "clear") (fun _ => 0#8) k = some (.exit .clear, k') ∧
      k'.pic.masterMask = k.pic.masterMask := by
  have hrun : ((entry sampleEnv zeroRam).bind fun x =>
      (execute sampleEnv (commandLine "clear") (fun _ => 0#8) x.2).map fun y =>
        (y.1, x.2.pic.masterMask.getLsbD 0)) = some (.exit .clear, false) := by
    decide +kernel
  obtain ⟨⟨r, k⟩, hentry, hrun⟩ := Option.bind_eq_some_iff.mp hrun
  obtain ⟨⟨r', k'⟩, hx, hres⟩ := Option.map_eq_some_iff.mp hrun
  obtain ⟨rfl, hmask⟩ := Prod.mk.inj hres
  have hparse : ((parseCommand (commandLine "clear")).map fun cmd =>
      (cmd.cmdLeng, strncmp (cString "clear" fun _ => 0#8) cmd.filename 5)) = some (5, 0) := by
    decide +kernel
  obtain ⟨cmd, hcmd, hname⟩ := Option.map_eq_some_iff.mp hparse
  obtain ⟨hlen, hclear⟩ := Prod.mk.inj hname
  have hfind : findProgram sampleEnv.img cmd (fun _ => 0#8) = .error .clear := by
    rw [findProgram, if_neg (by omega), if_pos hclear]
  obtain ⟨_, _, hx', heq⟩ := (restoresMask_iff fun _ => ⟨_, _, hx⟩).mpr
    ⟨shortCommand_of_execute hx, by
      rw [hmask]
      exact iff_of_false Bool.false_ne_true (not_refused_of_clear hcmd hfind)⟩
  cases hx.symm.trans hx'
  exact ⟨r, k, k', hentry, hx, heq⟩

/-- A mistyped command leaves the timer masked, and no other terminal is scheduled any more. -/
theorem masterMask_noSuchFile :
    ∃ r k k', entry sampleEnv zeroRam = some (r, k) ∧
      execute sampleEnv (commandLine "sl") (fun _ => 0#8) k = some (.exit .noSuchFile, k') ∧
      k.pic.masterMask.getLsbD 0 = false ∧ k'.pic.masterMask.getLsbD 0 = true := by
  have hrun : ((entry sampleEnv zeroRam).bind fun x =>
      (execute sampleEnv (commandLine "sl") (fun _ => 0#8) x.2).map fun y =>
        (y.1, x.2.pic.masterMask.getLsbD 0, y.2.pic.masterMask.getLsbD 0)) =
      some (.exit .noSuchFile, false, true) := by
    decide +kernel
  obtain ⟨⟨r, k⟩, hentry, hrun⟩ := Option.bind_eq_some_iff.mp hrun
  obtain ⟨⟨r', k'⟩, hx, hres⟩ := Option.map_eq_some_iff.mp hrun
  obtain ⟨rfl, hbefore, hafter⟩ := by simpa only [Prod.mk.injEq] using hres
  exact ⟨r, k, k', hentry, hx, hbefore, hafter⟩

end Ece391
