import Ece391Os.Process.Arguments

/-!
# What `getargs` reveals

`getargs` compares the caller's `nbytes` with the length of the argument, and then copies `nbytes`
bytes from the field on. The field has 129 bytes; behind it lie the saved registers and pointers of
the PCB.

* `HoldsArgs`: the field of the running process is a text with zeros behind it, as `execute` fills
  it (`holdsArgs_launched`).
* `RevealsArgs`: what a call does is a function of the text, and it writes the text and zeros only.
* `revealsArgs_iff`: this is so exactly for the sizes from 0 to 129.
-/

namespace Ece391

/-- The field `args` of the running process holds the text, and zeros up to its end. -/
def HoldsArgs (k : Kernel) (text : List Byte) : Prop :=
  ∀ j < 129, argsOf k j = Buffer.ofList text (fun _ => 0#8) j

/-- A call with `nbytes` acts alike in all kernels that hold the text. It returns -1 and leaves the
buffer exactly if the text and its NUL are longer than `nbytes`; otherwise it writes the text and
zeros. -/
structure RevealsArgs (text : List Byte) (nbytes : Word) : Prop where
  agrees : ∀ k k' buf, HoldsArgs k text → HoldsArgs k' text →
    getargs k buf nbytes = getargs k' buf nbytes
  refuses : ∀ k buf, HoldsArgs k text →
    (getargs k buf nbytes = some (-1#32, buf) ↔ nbytes.toInt < text.length + 1)
  writes : ∀ k buf, HoldsArgs k text → ¬ nbytes.toInt < text.length + 1 →
    ∃ n, getargs k buf nbytes =
      some (0#32, buf.overwrite (Buffer.ofList text fun _ => 0#8) n)

/-- The launch of a program has stored the text of its command. -/
theorem holdsArgs_launched {env : Env} {command stack : Buffer} {k k' : Kernel} {cmd : Command}
    {eip : Word} (h : execute env command stack k = some (.userMode eip, k'))
    (hcmd : parseCommand command = some cmd) :
    HoldsArgs k' (cmd.arg.bytesOf 0 cmd.argLeng) := by
  obtain ⟨cmd', old, hcmd', hargs⟩ := argsOf_launched h
  obtain rfl := Option.some.inj (hcmd.symm.trans hcmd')
  intro j hj
  rw [hargs]
  by_cases hlt : j < cmd.argLeng
  · rw [Buffer.overwrite_of_lt _ _ _ hlt, Buffer.ofList_bytesOf_of_lt _ _ hlt]
  · rw [Buffer.overwrite_of_le _ _ _ (not_lt.mp hlt), Buffer.overwrite_of_lt _ _ _ hj,
      Buffer.ofList_of_le _ _ (by simpa using hlt)]

section

variable {k : Kernel} {text : List Byte} {nbytes : Word} {buf : Buffer}

/-- The size of the text and its NUL is compared without signs. -/
theorem getargs_of_holdsArgs (hnul : 0#8 ∉ text) (hlen : text.length ≤ 128)
    (hargs : HoldsArgs k text) :
    getargs k buf nbytes =
      if nbytes.toNat < text.length + 1 then some (-1#32, buf)
      else some (0#32, buf.overwrite (argsOf k) nbytes.toNat) := by
  -- the zeros behind the text end it
  have hstrlen : strlen (argsOf k) = some text.length := by
    refine strlen_text hnul (by omega) (fun j hj => ?_) ?_
    · rw [hargs j (by omega), Buffer.ofList_of_lt _ _ hj]
    · rw [hargs _ (by omega), Buffer.ofList_length]
  -- the sum does not wrap, so the comparison is one of numbers
  have hsize : nbytes < BitVec.ofNat 32 text.length + 1#32 ↔ nbytes.toNat < text.length + 1 := by
    rw [BitVec.lt_def, ← BitVec.ofNat_add, BitVec.toNat_ofNat, Nat.mod_eq_of_lt (by omega)]
  rw [getargs, ← argsOf, hstrlen, Option.bind_eq_bind, Option.bind_some]
  simp only [hsize]

/-- A kernel whose running process has the bytes in the memory from its field on. -/
def kernelWithArgs (args : Buffer) : Kernel :=
  bootKernel { zeroRam with pcbs := fun p => { zeroRam.pcbs p with args } }

@[simp]
theorem argsOf_kernelWithArgs (args : Buffer) : argsOf (kernelWithArgs args) = args := rfl

/-- The byte behind the field is copied if the size reaches it. -/
theorem RevealsArgs.toNat_le (hnul : 0#8 ∉ text) (hlen : text.length ≤ 128)
    (h : RevealsArgs text nbytes) : nbytes.toNat ≤ 129 := by
  by_contra hlong
  -- two kernels that differ behind the field only
  let zeros : Buffer := Buffer.ofList text fun _ => 0#8
  let ones : Buffer := Function.update zeros 129 1#8
  have hzeros : HoldsArgs (kernelWithArgs zeros) text := fun j _ => rfl
  have hones : HoldsArgs (kernelWithArgs ones) text := fun j hj =>
    Function.update_of_ne (by omega) _ _
  have hsame := h.agrees _ _ (fun _ => 0#8) hzeros hones
  rw [getargs_of_holdsArgs hnul hlen hzeros, getargs_of_holdsArgs hnul hlen hones,
    if_neg (by omega), if_neg (by omega), argsOf_kernelWithArgs, argsOf_kernelWithArgs] at hsame
  -- the copy has reached the byte in which they differ
  have hbyte := congrFun (Prod.mk.inj (Option.some.inj hsame)).2 129
  rw [Buffer.overwrite_of_lt _ _ _ (by omega), Buffer.overwrite_of_lt _ _ _ (by omega)] at hbyte
  have hzero : zeros 129 = 0#8 := Buffer.ofList_of_le _ _ (by omega)
  have hone : ones 129 = 1#8 := Function.update_self _ _ _
  rw [hzero, hone] at hbyte
  exact absurd hbyte (by decide)

end

/-- Whatever text of up to 128 characters a process was launched with, `getargs` reveals it and
nothing else exactly with the sizes from 0 to 129. -/
theorem revealsArgs_iff {text : List Byte} {nbytes : Word} (hnul : 0#8 ∉ text)
    (hlen : text.length ≤ 128) :
    RevealsArgs text nbytes ↔ 0 ≤ nbytes.toInt ∧ nbytes.toInt ≤ 129 := by
  have hcond := BitVec.toInt_eq_toNat_cond nbytes
  constructor
  · intro h
    -- a negative size is a large number without sign
    have hle := h.toNat_le hnul hlen
    rw [if_pos (by omega)] at hcond
    omega
  · rintro ⟨hnonneg, hle⟩
    -- a size that is not negative is the same number without sign
    have hnat : nbytes.toInt = nbytes.toNat := by
      rw [hcond]
      split_ifs at hcond ⊢ <;> omega
    -- inside the field the copy is that of the text and its zeros
    have hcall : ∀ k buf, HoldsArgs k text → getargs k buf nbytes =
        if nbytes.toNat < text.length + 1 then some (-1#32, buf)
        else some (0#32, buf.overwrite (Buffer.ofList text fun _ => 0#8) nbytes.toNat) := by
      intro k buf hargs
      rw [getargs_of_holdsArgs hnul hlen hargs,
        Buffer.overwrite_congr _ _ _ fun j hj => hargs j (by omega)]
    refine ⟨fun k k' buf hargs hargs' => ?_, fun k buf hargs => ?_, fun k buf hargs hsize => ?_⟩
    · rw [hcall k buf hargs, hcall k' buf hargs']
    · rw [hcall k buf hargs, hnat]
      constructor
      · intro hret
        split_ifs at hret with hlt
        · omega
        · exact absurd (Prod.mk.inj (Option.some.inj hret)).1 (by decide)
      · intro hlt
        rw [if_pos (by omega)]
    · rw [hcall k buf hargs, if_neg (by omega)]
      exact ⟨_, rfl⟩

/-- The argument `-v` is revealed by a call with room for 32 bytes. -/
theorem revealsArgs_ascii : RevealsArgs (ascii "-v") 32#32 :=
  (revealsArgs_iff (by decide +kernel) (by decide +kernel)).mpr (by decide)

/-- The memory of the machine before boot, with one byte set behind the field of process 3. -/
def ramBehindArgs (b : Byte) : BootRam :=
  { zeroRam with
    pcbs := fun p => { zeroRam.pcbs p with args := Function.update (fun _ => 0#8) 129 b } }

/-- A program launched with `-v` calls `getargs` with the size that `cat` passes, in two machines
that differ in one byte behind the field: it gets this byte. -/
theorem not_revealsArgs_cat :
    (∀ b ∈ [1#8, 2#8], ∃ r k k' buf, entry sampleEnv (ramBehindArgs b) = some (r, k) ∧
      execute sampleEnv (commandLine "shell -v") (fun _ => 0#8) k =
        some (.userMode 0x08048000#32, k') ∧
      HoldsArgs k' (ascii "-v") ∧
      getargs k' (fun _ => 0#8) 1024#32 = some (0#32, buf) ∧ buf 129 = b) ∧
    ¬ RevealsArgs (ascii "-v") 1024#32 := by
  refine ⟨fun b hb => ?_, fun h => absurd (h.toNat_le ?_ ?_) (by decide)⟩
  · have hrun : ∀ b ∈ [1#8, 2#8], (entry sampleEnv (ramBehindArgs b)).any fun x =>
        (execute sampleEnv (commandLine "shell -v") (fun _ => 0#8) x.2).any fun y =>
          (parseCommand (commandLine "shell -v")).any fun cmd =>
            (getargs y.2 (fun _ => 0#8) 1024#32).any fun z =>
              decide (y.1 = .userMode 0x08048000#32 ∧
                cmd.arg.bytesOf 0 cmd.argLeng = ascii "-v" ∧ z.1 = 0#32 ∧ z.2 129 = b) := by
      decide +kernel
    have hb := hrun b hb
    simp only [Option.any_eq_true, decide_eq_true_eq] at hb
    obtain ⟨⟨r, k⟩, hboot, ⟨r', k'⟩, hx, cmd, hcmd, ⟨ret, buf⟩, hget, rfl, htext, rfl, hbyte⟩ := hb
    exact ⟨r, k, k', buf, hboot, hx, htext ▸ holdsArgs_launched hx hcmd, hget, hbyte⟩
  · decide +kernel
  · decide +kernel

end Ece391
