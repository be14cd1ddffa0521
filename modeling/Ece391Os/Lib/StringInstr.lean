import Ece391Os.Lib.I386
import Ece391Os.Lib.Transition

/-!
# The string instructions of an i386

A machine for routines that are written in assembler and move bytes: the general registers, the
three flags such routines test or set, and memory. Segments are flat.

* A `Program` is a list of lines: labels, instructions (`Op`) and jumps. `step` executes one line,
  and `Ends prog m m'` says that the run from the first line on comes to the end of the text.
* `StrOp` are the bodies of the string instructions, and `rep` the prefix that repeats them.
* `patched mem dst f lo hi` is a memory with `f lo` to `f (hi - 1)` stored from `dst + lo` on.
* `wordwise` is the shape of a routine that handles single bytes up to an aligned address, then
  words, and then the bytes that are left. `wordwise_ends`: it does what the plain loop over the
  bytes does, whatever the alignment.
-/

namespace I386

open Relation

/-- The registers and flags of a routine, and the memory. -/
structure Machine where
  gpr : Gpr → Word
  seg : SegReg → BitVec 16
  /-- The zero flag. -/
  zf : Bool
  /-- The carry flag. -/
  cf : Bool
  /-- The direction flag: set, string instructions run downwards. -/
  df : Bool
  mem : Memory
  deriving Inhabited

/-- One round of a string instruction. -/
inductive StrOp
  | stosl
  | movsl
  | movsb

/-- An instruction that is no jump, with the source before the destination. -/
inductive Op
  | testl (src dst : Gpr)
  | testlImm (imm : Word) (dst : Gpr)
  | cmpl (src dst : Gpr)
  | movl (src dst : Gpr)
  | addl (imm : Word) (dst : Gpr)
  | subl (imm : Word) (dst : Gpr)
  | andl (imm : Word) (dst : Gpr)
  | shrl (n : ℕ) (dst : Gpr)
  /-- `leal disp(base, index), dst` -/
  | leal (disp : Word) (base index dst : Gpr)
  /-- `movb (src), %al` -/
  | loadb (src : Gpr)
  /-- `movb %al, (dst)` -/
  | storeb (dst : Gpr)
  /-- `movw src, dst`, where the low half of `dst` is assigned -/
  | movwFromSeg (src : SegReg) (dst : Gpr)
  /-- `movw src, dst`, where the low half of `src` is loaded -/
  | movwToSeg (src : Gpr) (dst : SegReg)
  | cld
  | std
  | rep (body : StrOp)

/-- A line of a program. -/
inductive Line (L : Type)
  | label (l : L)
  | op (o : Op)
  | jmp (l : L)
  | jz (l : L)
  | jae (l : L)

namespace Machine

/-- Assign a register. -/
def setGpr (m : Machine) (r : Gpr) (v : Word) : Machine :=
  { m with gpr := Function.update m.gpr r v }

/-- Store a byte. -/
def storeByte (m : Machine) (a : Word) (b : Byte) : Machine :=
  { m with mem := Function.update m.mem a b }

/-- `%al` -/
def al (m : Machine) : Byte := (m.gpr .eax).setWidth 8

/-- Move a pointer over `n` bytes, in the direction of the flag. -/
def advance (m : Machine) (n : Word) (r : Gpr) : Machine :=
  m.setGpr r (if m.df then m.gpr r - n else m.gpr r + n)

end Machine

/-- What one round of a string instruction does. -/
def StrOp.exec (m : Machine) : StrOp → Machine
  | stosl => { m with mem := storeWord m.mem (m.gpr .edi) (m.gpr .eax) }.advance 4#32 .edi
  | movsl =>
    ({ m with mem := storeWord m.mem (m.gpr .edi) (leWord m.mem (m.gpr .esi)) }.advance 4#32
      .edi).advance 4#32 .esi
  | movsb => ((m.storeByte (m.gpr .edi) (m.mem (m.gpr .esi))).advance 1#32 .edi).advance 1#32 .esi

/-- One round under `rep`, which counts `ecx` down. -/
def repRound (body : StrOp) (m : Machine) : Machine :=
  (body.exec m).setGpr .ecx ((body.exec m).gpr .ecx - 1#32)

/-- `rep`: `n` rounds. -/
def rep (body : StrOp) : ℕ → Machine → Machine
  | 0, m => m
  | n + 1, m => rep body n (repRound body m)

/-- An invariant that one round takes from `k` to `k + 1`. -/
theorem rep_induct {body : StrOp} {n : ℕ} {I : ℕ → Machine → Prop}
    (hround : ∀ k m, k < n → I k m → I (k + 1) (repRound body m)) {q k : ℕ} (hq : k + q ≤ n)
    {m : Machine} (hm : I k m) : I (k + q) (rep body q m) := by
  induction q generalizing k m with
  | zero => exact hm
  | succ q ih =>
    have hstep : I (k + 1 + q) (rep body q (repRound body m)) :=
      ih (by omega) (hround k m (by omega) hm)
    rwa [Nat.add_right_comm] at hstep

/-- What an instruction does. -/
def Op.exec (m : Machine) : Op → Machine
  | testl src dst => { m with zf := m.gpr dst &&& m.gpr src == 0#32, cf := false }
  | testlImm imm dst => { m with zf := m.gpr dst &&& imm == 0#32, cf := false }
  | cmpl src dst =>
    { m with zf := m.gpr dst == m.gpr src, cf := decide (m.gpr dst < m.gpr src) }
  | movl src dst => m.setGpr dst (m.gpr src)
  | addl imm dst =>
    let v := m.gpr dst + imm
    { m.setGpr dst v with zf := v == 0#32, cf := decide (v < imm) }
  | subl imm dst =>
    let v := m.gpr dst - imm
    { m.setGpr dst v with zf := v == 0#32, cf := decide (m.gpr dst < imm) }
  | andl imm dst =>
    let v := m.gpr dst &&& imm
    { m.setGpr dst v with zf := v == 0#32, cf := false }
  | shrl n dst =>
    let v := m.gpr dst >>> n
    { m.setGpr dst v with zf := v == 0#32, cf := (m.gpr dst).getLsbD (n - 1) }
  | leal disp base index dst => m.setGpr dst (m.gpr base + m.gpr index + disp)
  | loadb src => m.setGpr .eax ((m.gpr .eax).extractLsb' 8 24 ++ m.mem (m.gpr src))
  | storeb dst => m.storeByte (m.gpr dst) m.al
  | movwFromSeg src dst => m.setGpr dst ((m.gpr dst).extractLsb' 16 16 ++ m.seg src)
  | movwToSeg src dst => { m with seg := Function.update m.seg dst ((m.gpr src).setWidth 16) }
  | cld => { m with df := false }
  | std => { m with df := true }
  | rep body => I386.rep body (m.gpr .ecx).toNat m

/-- Execute instructions one after the other. -/
def execAll (os : List Op) (m : Machine) : Machine := os.foldl Op.exec m

/-! ## Runs -/

section Runs

variable {L : Type} [DecidableEq L]

/-- The lines from a label on. -/
def linesFrom (l : L) : List (Line L) → List (Line L)
  | [] => []
  | .label l' :: rest => if l' = l then .label l' :: rest else linesFrom l rest
  | _ :: rest => linesFrom l rest

/-- Execute a line. The state is the text that is left and the machine. -/
def step (prog : List (Line L)) : List (Line L) × Machine → Option (List (Line L) × Machine)
  | ([], _) => none
  | (.label _ :: rest, m) => some (rest, m)
  | (.op o :: rest, m) => some (rest, o.exec m)
  | (.jmp l :: _, m) => some (linesFrom l prog, m)
  | (.jz l :: rest, m) => some (if m.zf then linesFrom l prog else rest, m)
  | (.jae l :: rest, m) => some (if m.cf then rest else linesFrom l prog, m)

/-- A run of some lines. -/
def Runs (prog : List (Line L)) : List (Line L) × Machine → List (Line L) × Machine → Prop :=
  ReflTransGen fun s s' => step prog s = some s'

/-- The program ends, and leaves `m'`. -/
def Ends (prog : List (Line L)) (m m' : Machine) : Prop := Runs prog (prog, m) ([], m')

variable {prog rest rest' : List (Line L)} {s s' s'' : List (Line L) × Machine} {m m' m'' : Machine}

theorem Runs.refl (s : List (Line L) × Machine) : Runs prog s s := ReflTransGen.refl

theorem Runs.head (h : step prog s = some s') (hrun : Runs prog s' s'') : Runs prog s s'' :=
  ReflTransGen.head h hrun

theorem Runs.trans (h : Runs prog s s') (h' : Runs prog s' s'') : Runs prog s s'' :=
  ReflTransGen.trans h h'

/-- Instructions without a jump are executed in order. -/
theorem Runs.ops (os : List Op) (h : Runs prog (rest, execAll os m) s) :
    Runs prog (os.map .op ++ rest, m) s := by
  induction os generalizing m with
  | nil => exact h
  | cons o os ih => exact Runs.head rfl (ih h)

theorem Runs.jmp {l : L} (h : Runs prog (linesFrom l prog, m) s) :
    Runs prog (.jmp l :: rest, m) s :=
  Runs.head rfl h

/-- A conditional jump that is taken. -/
theorem Runs.jz {l : L} (hzf : m.zf = true) (h : Runs prog (linesFrom l prog, m) s) :
    Runs prog (.jz l :: rest, m) s := by
  apply Runs.head _ h
  rw [step.eq_def]
  simp only [hzf, if_true]

/-- A conditional jump that is not taken. -/
theorem Runs.not_jz {l : L} (hzf : ¬ m.zf = true) (h : Runs prog (rest, m) s) :
    Runs prog (.jz l :: rest, m) s := by
  apply Runs.head _ h
  rw [step.eq_def]
  simp only [if_neg hzf]

/-- A jump on "above or equal" that is taken. -/
theorem Runs.jae {l : L} (hcf : ¬ m.cf = true) (h : Runs prog (linesFrom l prog, m) s) :
    Runs prog (.jae l :: rest, m) s := by
  apply Runs.head _ h
  rw [step.eq_def]
  simp only [if_neg hcf]

theorem Runs.not_jae {l : L} (hcf : m.cf = true) (h : Runs prog (rest, m) s) :
    Runs prog (.jae l :: rest, m) s := by
  apply Runs.head _ h
  rw [step.eq_def]
  simp only [hcf, if_true]

/-- There is one result. -/
theorem Ends.unique (h : Ends prog m m') (h' : Ends prog m m'') : m' = m'' := by
  have hrest : Runs prog ([], m') ([], m'') := Transition.reaches_final rfl h h'
  exact (Prod.mk.inj (Transition.eq_of_final rfl hrest)).2.symm

/-- No label is inside a list of instructions. -/
theorem linesFrom_ops (l : L) (os : List Op) (rest : List (Line L)) :
    linesFrom l (os.map .op ++ rest) = linesFrom l rest := by
  induction os with
  | nil => rfl
  | cons o os ih => exact ih

end Runs

/-! ## Regions of memory -/

/-- The bytes `lo` to `hi - 1` of the region at `dst` are those of `f`. -/
def patched (mem : Memory) (dst : Word) (f : ℕ → Byte) (lo hi : ℕ) : Memory := fun a =>
  if lo ≤ (a - dst).toNat ∧ (a - dst).toNat < hi then f (a - dst).toNat else mem a

section Patched

variable {mem : Memory} {dst a : Word} {f : ℕ → Byte} {lo hi d : ℕ}

theorem toNat_add_sub_self (dst : Word) (hd : d < 2 ^ 32) :
    (dst + BitVec.ofNat 32 d - dst).toNat = d := by
  rw [BitVec.add_comm, BitVec.add_sub_cancel, BitVec.toNat_ofNat, Nat.mod_eq_of_lt hd]

theorem ofNat_toNat_self (x : Word) : BitVec.ofNat 32 x.toNat = x := by
  rw [BitVec.ofNat_toNat, BitVec.setWidth_eq]

theorem add_ofNat_toNat_sub (a dst : Word) : dst + BitVec.ofNat 32 (a - dst).toNat = a := by
  rw [ofNat_toNat_self, BitVec.add_comm, BitVec.sub_add_cancel]

/-- A pointer that has moved over `k` bytes moves over `j` more. -/
theorem add_ofNat_of_eq {p : Word} {k : ℕ} (hp : p = a + BitVec.ofNat 32 k) (j : ℕ) :
    p + BitVec.ofNat 32 j = a + BitVec.ofNat 32 (k + j) := by
  rw [hp, BitVec.add_assoc, ← BitVec.ofNat_add]

/-- The same under a string instruction, with the direction flag clear. -/
theorem advance_of_eq {p : Word} {k : ℕ} {df : Bool} (hdf : df = false)
    (hp : p = a + BitVec.ofNat 32 k) (j : ℕ) :
    (if df then p - BitVec.ofNat 32 j else p + BitVec.ofNat 32 j) =
      a + BitVec.ofNat 32 (k + j) := by
  rw [hdf]
  exact add_ofNat_of_eq hp j

/-- Nothing is stored yet. -/
theorem patched_self (mem : Memory) (dst : Word) (f : ℕ → Byte) (lo : ℕ) :
    patched mem dst f lo lo = mem := by
  ext a : 1
  exact if_neg fun h => absurd h.2 (Nat.not_lt.mpr h.1)

/-- A byte of the region. -/
theorem patched_of_mem (hd : d < 2 ^ 32) (hlo : lo ≤ d) (hhi : d < hi) :
    patched mem dst f lo hi (dst + BitVec.ofNat 32 d) = f d := by
  rw [patched, toNat_add_sub_self dst hd, if_pos ⟨hlo, hhi⟩]

/-- A byte that is not in the region. -/
theorem patched_of_ne (ha : ∀ d, lo ≤ d → d < hi → a ≠ dst + BitVec.ofNat 32 d) :
    patched mem dst f lo hi a = mem a :=
  if_neg fun h => ha _ h.1 h.2 (add_ofNat_toNat_sub a dst).symm

/-- A byte is stored behind the part that is done. -/
theorem update_patched_hi (hlo : lo ≤ hi) (hhi : hi < 2 ^ 32) :
    Function.update (patched mem dst f lo hi) (dst + BitVec.ofNat 32 hi) (f hi) =
      patched mem dst f lo (hi + 1) := by
  ext a : 1
  by_cases ha : a = dst + BitVec.ofNat 32 hi
  · rw [ha, Function.update_self, patched_of_mem hhi hlo hi.lt_succ_self]
  · have hne : (a - dst).toNat ≠ hi := by
      intro heq
      exact ha (heq ▸ (add_ofNat_toNat_sub a dst).symm)
    rw [Function.update_of_ne ha, patched, patched]
    exact if_congr (by omega) rfl rfl

/-- A byte is stored in front of the part that is done. -/
theorem update_patched_lo (hlo : lo < hi) (hhi : hi ≤ 2 ^ 32) :
    Function.update (patched mem dst f (lo + 1) hi) (dst + BitVec.ofNat 32 lo) (f lo) =
      patched mem dst f lo hi := by
  ext a : 1
  by_cases ha : a = dst + BitVec.ofNat 32 lo
  · rw [ha, Function.update_self, patched_of_mem (by omega) le_rfl hlo]
  · have hne : (a - dst).toNat ≠ lo := by
      intro heq
      exact ha (heq ▸ (add_ofNat_toNat_sub a dst).symm)
    rw [Function.update_of_ne ha, patched, patched]
    exact if_congr (by omega) rfl rfl

/-- A word is stored behind the part that is done. -/
theorem storeWord_patched {v : Word} (hlo : lo ≤ hi) (hhi : hi + 4 ≤ 2 ^ 32)
    (hv : ∀ j < 4, v.extractLsb' (8 * j) 8 = f (hi + j)) :
    storeWord (patched mem dst f lo hi) (dst + BitVec.ofNat 32 hi) v =
      patched mem dst f lo (hi + 4) := by
  ext a : 1
  -- the distance from the word, and from the region
  have hdist : (a - (dst + BitVec.ofNat 32 hi)).toNat =
      if hi ≤ (a - dst).toNat then (a - dst).toNat - hi
      else (a - dst).toNat + 4294967296 - hi := by
    simp only [Nat.reducePow] at hhi
    rw [← BitVec.sub_sub]
    generalize a - dst = x
    split_ifs <;> bv_omega
  have hlt := (a - dst).isLt
  simp only [Nat.reducePow] at hhi hlt
  rw [storeWord, hdist]
  by_cases hin : hi ≤ (a - dst).toNat ∧ (a - dst).toNat < hi + 4
  · rw [if_pos hin.1, if_pos (by omega), hv _ (by omega), patched, if_pos (by omega)]
    congr 1
    omega
  · -- a byte that is not one of the word
    have hfar : ¬ (if hi ≤ (a - dst).toNat then (a - dst).toNat - hi
        else (a - dst).toNat + 4294967296 - hi) < 4 := by
      split_ifs <;> omega
    rw [if_neg hfar, patched, patched]
    exact if_congr (by omega) rfl rfl

end Patched

/-! ## Bytes up to an aligned address, words, and the bytes left -/

/-- The labels of such a routine. -/
inductive Block
  | top
  | aligned
  | bottom
  | done
  deriving DecidableEq

/-- The loop over single bytes behind the words, with their number in `edx`. -/
def bottomLines (byte : List Op) : List (Line Block) :=
  [.label .bottom, .op (.testl .edx .edx), .jz .done] ++
    (byte.map .op ++ [.op (.subl 1#32 .edx), .jmp .bottom, .label .done])

/-- The words, and what is left of `ecx` bytes. -/
def alignedOps (word : StrOp) : List Op :=
  [.movwFromSeg .ds .edx, .movwToSeg .edx .es, .movl .ecx .edx, .shrl 2 .ecx, .andl 3#32 .edx,
    .cld, .rep word]

/-- The routine: `byte` handles one byte at `edi`, and `word` the next four. -/
def wordwise (byte : List Op) (word : StrOp) : List (Line Block) :=
  [.label .top, .op (.testl .ecx .ecx), .jz .done, .op (.testlImm 3#32 .edi), .jz .aligned] ++
    (byte.map .op ++ ([.op (.subl 1#32 .ecx), .jmp .top, .label .aligned] ++
      ((alignedOps word).map .op ++ bottomLines byte)))

/-- `I k m`: the first `k` of `n` bytes are done. The invariant is about the data registers and
memory, one byte or word more is done by `byte` and `word`, and these keep the counters. -/
structure HandlesBytes (byte : List Op) (word : StrOp) (n : ℕ) (I : ℕ → Machine → Prop) :
    Prop where
  congr : ∀ k m m', (∀ r, r ≠ .ecx → r ≠ .edx → m'.gpr r = m.gpr r) → m'.mem = m.mem →
    I k m → I k m'
  next_byte : ∀ k m, k < n → I k m → I (k + 1) (execAll byte m)
  byte_keeps : ∀ m r, r = .ecx ∨ r = .edx → (execAll byte m).gpr r = m.gpr r
  next_word : ∀ k m, k + 4 ≤ n → m.df = false → I k m → I (k + 4) (word.exec m)
  word_keeps : ∀ m r, r = .ecx ∨ r = .edx → (word.exec m).gpr r = m.gpr r
  word_df : ∀ m, (word.exec m).df = m.df

section Wordwise

variable {byte : List Op} {word : StrOp} {n : ℕ} {I : ℕ → Machine → Prop}

/-- The text from the words on. -/
theorem linesFrom_aligned : linesFrom .aligned (wordwise byte word) =
    .label .aligned :: ((alignedOps word).map .op ++ bottomLines byte) :=
  linesFrom_ops _ byte _

theorem linesFrom_bottom : linesFrom .bottom (wordwise byte word) = bottomLines byte :=
  linesFrom_ops _ byte _

theorem linesFrom_done : linesFrom .done (wordwise byte word) = [.label .done] := by
  refine (linesFrom_ops _ byte _).trans ?_
  exact linesFrom_ops _ byte _

/-- A counter that has been counted down from a number of bytes. -/
theorem ofNat_succ_sub_one (r : ℕ) : BitVec.ofNat 32 (r + 1) - 1#32 = BitVec.ofNat 32 r := by
  rw [BitVec.ofNat_add, BitVec.add_sub_cancel]

theorem ofNat_succ_ne_zero {r : ℕ} (hr : r + 1 < 2 ^ 32) : BitVec.ofNat 32 (r + 1) ≠ 0#32 := by
  intro h
  have hval := congrArg BitVec.toNat h
  rw [BitVec.toNat_ofNat, Nat.mod_eq_of_lt hr] at hval
  cases hval

/-- The loop behind the words does the bytes that are left. -/
theorem HandlesBytes.bottom (h : HandlesBytes byte word n I) (hn : n < 2 ^ 32) {r : ℕ}
    (hr : r ≤ n) {m : Machine} (hm : I (n - r) m) (hedx : m.gpr .edx = BitVec.ofNat 32 r) :
    ∃ m', Runs (wordwise byte word) (bottomLines byte, m) ([], m') ∧ I n m' := by
  induction r generalizing m with
  | zero =>
    -- no byte is left
    have hzf : ((Op.testl .edx .edx).exec m).zf = true := by simp [Op.exec, hedx]
    refine ⟨(Op.testl .edx .edx).exec m, ?_, h.congr _ m _ (fun _ _ _ => rfl) rfl hm⟩
    refine .head rfl (.head rfl (.jz hzf ?_))
    rw [linesFrom_done]
    exact .head rfl (.refl _)
  | succ r ih =>
    -- the test, the byte and the count
    let m₁ := (Op.testl .edx .edx).exec m
    let m₂ := execAll byte m₁
    let m₃ := (Op.subl 1#32 .edx).exec m₂
    have hzf : ¬ m₁.zf = true := by
      simp [m₁, Op.exec, hedx, ofNat_succ_ne_zero (by omega : r + 1 < 2 ^ 32)]
    have hdone : I (n - (r + 1) + 1) m₂ :=
      h.next_byte _ _ (by omega) (h.congr _ m _ (fun _ _ _ => rfl) rfl hm)
    have hk : n - (r + 1) + 1 = n - r := by omega
    rw [hk] at hdone
    have hnext : I (n - r) m₃ :=
      h.congr _ m₂ _ (fun r' _ hne => Function.update_of_ne hne _ _) rfl hdone
    have hleft : m₃.gpr .edx = BitVec.ofNat 32 r := by
      have hkeep : m₂.gpr .edx = m.gpr .edx := h.byte_keeps m₁ .edx (Or.inr rfl)
      change Function.update m₂.gpr .edx (m₂.gpr .edx - 1#32) .edx = _
      rw [Function.update_self, hkeep, hedx, ofNat_succ_sub_one]
    obtain ⟨m', hrun, hm'⟩ := ih (by omega) hnext hleft
    refine ⟨m', .head rfl (.head rfl (.not_jz hzf (.ops byte (.head rfl (.jmp ?_))))), hm'⟩
    rw [linesFrom_bottom]
    exact hrun

/-- The repeated instruction does four bytes a round. -/
theorem HandlesBytes.rep (h : HandlesBytes byte word n I) {q k : ℕ} (hk : k + 4 * q ≤ n)
    {m : Machine} (hdf : m.df = false) (hm : I k m) :
    I (k + 4 * q) (rep word q m) ∧ (rep word q m).gpr .edx = m.gpr .edx := by
  have hrounds : I (k + 4 * (0 + q)) (I386.rep word q m) ∧ (I386.rep word q m).df = false ∧
      (I386.rep word q m).gpr .edx = m.gpr .edx := by
    apply rep_induct (n := q) (I := fun i m' =>
      I (k + 4 * i) m' ∧ m'.df = false ∧ m'.gpr .edx = m.gpr .edx) _ (Nat.zero_add q).le
    · exact ⟨hm, hdf, rfl⟩
    · -- counting `ecx` down changes nothing the invariant is about
      rintro i m' hi ⟨hm', hdf', hedx⟩
      have hroom : k + 4 * i + 4 ≤ n := by omega
      refine ⟨?_, (h.word_df m').trans hdf', ?_⟩
      · exact h.congr _ (word.exec m') _ (fun r hne _ => Function.update_of_ne hne _ _) rfl
          (h.next_word _ m' hroom hdf' hm')
      · change Function.update (word.exec m').gpr .ecx ((word.exec m').gpr .ecx - 1#32) .edx = _
        rw [Function.update_of_ne (by decide), h.word_keeps m' .edx (Or.inr rfl), hedx]
  rw [Nat.zero_add] at hrounds
  exact ⟨hrounds.1, hrounds.2.2⟩

/-- From an aligned address on: words, and the bytes that are left. -/
theorem HandlesBytes.aligned (h : HandlesBytes byte word n I) (hn : n < 2 ^ 32) {k : ℕ}
    (hk : k ≤ n) {m : Machine} (hm : I k m) (hecx : m.gpr .ecx = BitVec.ofNat 32 (n - k)) :
    ∃ m', Runs (wordwise byte word)
      (.label .aligned :: ((alignedOps word).map .op ++ bottomLines byte), m) ([], m') ∧
        I n m' := by
  -- the machine before the words
  let m₁ := execAll [.movwFromSeg .ds .edx, .movwToSeg .edx .es, .movl .ecx .edx, .shrl 2 .ecx,
    .andl 3#32 .edx, .cld] m
  have hnat : (m.gpr .ecx).toNat = n - k := by
    rw [hecx, BitVec.toNat_ofNat, Nat.mod_eq_of_lt (by omega)]
  -- `ecx` is the number of words, and `edx` that of the bytes behind them
  have hquot : (m₁.gpr .ecx).toNat = (n - k) / 4 := by
    have hval : m₁.gpr .ecx = m.gpr .ecx >>> 2 := rfl
    rw [hval, BitVec.toNat_ushiftRight, hnat, Nat.shiftRight_eq_div_pow]
  have hrest : m₁.gpr .edx = BitVec.ofNat 32 ((n - k) % 4) := by
    have hval : m₁.gpr .edx = m.gpr .ecx &&& 3#32 := rfl
    apply BitVec.eq_of_toNat_eq
    rw [hval, BitVec.toNat_and, hnat, BitVec.toNat_ofNat, BitVec.toNat_ofNat,
      Nat.mod_eq_of_lt (by omega : (n - k) % 4 < 2 ^ 32)]
    exact Nat.and_two_pow_sub_one_eq_mod _ 2
  have hm₁ : I k m₁ := by
    refine h.congr _ m _ (fun r hc hd => ?_) rfl hm
    simp [m₁, execAll, Op.exec, Machine.setGpr, hc, hd]
  obtain ⟨hwords, hedx⟩ := h.rep (q := (n - k) / 4) (by omega) rfl hm₁
  have hk' : k + 4 * ((n - k) / 4) = n - (n - k) % 4 := by omega
  rw [hk'] at hwords
  obtain ⟨m', hrun, hm'⟩ := h.bottom hn (by omega) hwords (hedx.trans hrest)
  refine ⟨m', .head rfl (.ops (alignedOps word) ?_), hm'⟩
  have hexec : execAll (alignedOps word) m = I386.rep word (m₁.gpr .ecx).toNat m₁ := rfl
  rw [hexec, hquot]
  exact hrun

/-- The routine ends with all bytes done, whatever the alignment of the first one. -/
theorem HandlesBytes.top (h : HandlesBytes byte word n I) (hn : n < 2 ^ 32) {r : ℕ} (hr : r ≤ n)
    {m : Machine} (hm : I (n - r) m) (hecx : m.gpr .ecx = BitVec.ofNat 32 r) :
    ∃ m', Ends (wordwise byte word) m m' ∧ I n m' := by
  induction r generalizing m with
  | zero =>
    -- no byte is left before an aligned address is reached
    have hzf : ((Op.testl .ecx .ecx).exec m).zf = true := by simp [Op.exec, hecx]
    refine ⟨(Op.testl .ecx .ecx).exec m, ?_, h.congr _ m _ (fun _ _ _ => rfl) rfl hm⟩
    refine .head rfl (.head rfl (.jz hzf ?_))
    rw [linesFrom_done]
    exact .head rfl (.refl _)
  | succ r ih =>
    let m₁ := (Op.testlImm 3#32 .edi).exec ((Op.testl .ecx .ecx).exec m)
    have hgo : ¬ ((Op.testl .ecx .ecx).exec m).zf = true := by
      simp [Op.exec, hecx, ofNat_succ_ne_zero (by omega : r + 1 < 2 ^ 32)]
    have hm₁ : I (n - (r + 1)) m₁ := h.congr _ m _ (fun _ _ _ => rfl) rfl hm
    by_cases haligned : m₁.zf = true
    · -- the rest is done in words
      have hcount : m₁.gpr .ecx = BitVec.ofNat 32 (n - (n - (r + 1))) := by
        rw [Nat.sub_sub_self hr]
        exact hecx
      obtain ⟨m', hrun, hm'⟩ := h.aligned hn (by omega) hm₁ hcount
      refine ⟨m', .head rfl (.head rfl (.not_jz hgo (.head rfl (.jz haligned ?_)))), hm'⟩
      rw [linesFrom_aligned]
      exact hrun
    · -- one byte more
      let m₂ := execAll byte m₁
      let m₃ := (Op.subl 1#32 .ecx).exec m₂
      have hdone : I (n - (r + 1) + 1) m₂ := h.next_byte _ _ (by omega) hm₁
      have hk : n - (r + 1) + 1 = n - r := by omega
      rw [hk] at hdone
      have hnext : I (n - r) m₃ :=
        h.congr _ m₂ _ (fun r' hne _ => Function.update_of_ne hne _ _) rfl hdone
      have hleft : m₃.gpr .ecx = BitVec.ofNat 32 r := by
        have hkeep : m₂.gpr .ecx = m.gpr .ecx := h.byte_keeps m₁ .ecx (Or.inl rfl)
        change Function.update m₂.gpr .ecx (m₂.gpr .ecx - 1#32) .ecx = _
        rw [Function.update_self, hkeep, hecx, ofNat_succ_sub_one]
      obtain ⟨m', hrun, hm'⟩ := ih (by omega) hnext hleft
      refine ⟨m', .head rfl (.head rfl (.not_jz hgo (.head rfl (.not_jz haligned (.ops byte
        (.head rfl (.jmp hrun))))))), hm'⟩

end Wordwise

end I386
