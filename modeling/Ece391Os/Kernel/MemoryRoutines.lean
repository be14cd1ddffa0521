import Ece391Os.Lib.StringInstr

/-!
# `memset`, `memcpy` and `memmove`

The three routines of `lib.c` that are written in assembler, as programs of the string machine. The
operands that a routine expects in registers are set before its first line.

* `memset` and `memcpy` have one shape, `wordwise`: bytes up to an aligned destination, words, and
  the bytes that are left. `memset_memcpy_eq_loops`: they do what the loops over bytes do.
* `memmove` copies upwards or downwards. `movesCleanly_iff`: it copies right in both cases, and
  leaves the direction flag set exactly if it has copied downwards.
-/

namespace Ece391

open I386

/-! ## The programs -/

/-- The assembler text of `memset`. -/
def memset : List (Line Block) :=
  [.label .top,
    .op (.testl .ecx .ecx),
    .jz .done,
    .op (.testlImm 3#32 .edi),
    .jz .aligned,
    .op (.storeb .edi),
    .op (.addl 1#32 .edi),
    .op (.subl 1#32 .ecx),
    .jmp .top,
  .label .aligned,
    .op (.movwFromSeg .ds .edx),
    .op (.movwToSeg .edx .es),
    .op (.movl .ecx .edx),
    .op (.shrl 2 .ecx),
    .op (.andl 3#32 .edx),
    .op .cld,
    .op (.rep .stosl),
  .label .bottom,
    .op (.testl .edx .edx),
    .jz .done,
    .op (.storeb .edi),
    .op (.addl 1#32 .edi),
    .op (.subl 1#32 .edx),
    .jmp .bottom,
  .label .done]

/-- The assembler text of `memcpy`. -/
def memcpy : List (Line Block) :=
  [.label .top,
    .op (.testl .ecx .ecx),
    .jz .done,
    .op (.testlImm 3#32 .edi),
    .jz .aligned,
    .op (.loadb .esi),
    .op (.storeb .edi),
    .op (.addl 1#32 .edi),
    .op (.addl 1#32 .esi),
    .op (.subl 1#32 .ecx),
    .jmp .top,
  .label .aligned,
    .op (.movwFromSeg .ds .edx),
    .op (.movwToSeg .edx .es),
    .op (.movl .ecx .edx),
    .op (.shrl 2 .ecx),
    .op (.andl 3#32 .edx),
    .op .cld,
    .op (.rep .movsl),
  .label .bottom,
    .op (.testl .edx .edx),
    .jz .done,
    .op (.loadb .esi),
    .op (.storeb .edi),
    .op (.addl 1#32 .edi),
    .op (.addl 1#32 .esi),
    .op (.subl 1#32 .edx),
    .jmp .bottom,
  .label .done]

/-- The label `.memmove_go`. -/
inductive MemmoveLabel
  | go
  deriving DecidableEq

/-- The assembler text of `memmove`. -/
def memmove : List (Line MemmoveLabel) :=
  [.op (.movwFromSeg .ds .edx),
    .op (.movwToSeg .edx .es),
    .op .cld,
    .op (.cmpl .edi .esi),
    .jae .go,
    .op (.leal (-1#32) .esi .ecx .esi),
    .op (.leal (-1#32) .edi .ecx .edi),
    .op .std,
  .label .go,
    .op (.rep .movsb)]

/-- The word of four equal bytes that `memset` stores: `c << 24 | c << 16 | c << 8 | c`, after
`c &= 0xFF`. -/
def fillWord (c : Word) : Word :=
  let c := c &&& 0xFF#32
  c <<< 24 ||| c <<< 16 ||| c <<< 8 ||| c

/-- The operands of `memset(s, c, n)`. -/
def memsetArgs (s c n : Word) (m : Machine) : Machine :=
  ((m.setGpr .eax (fillWord c)).setGpr .edi s).setGpr .ecx n

/-- The operands of `memcpy(dest, src, n)` and `memmove(dest, src, n)`. -/
def copyArgs (dest src n : Word) (m : Machine) : Machine :=
  ((m.setGpr .esi src).setGpr .edi dest).setGpr .ecx n

/-! ## The loops over single bytes -/

/-- `n` bytes of a region are those of `f`, and all other bytes of memory are as they were. -/
structure StoresRegion (mem mem' : Memory) (dest n : Word) (f : ℕ → Byte) : Prop where
  region : ∀ j < n.toNat, mem' (dest + BitVec.ofNat 32 j) = f j
  others : ∀ a, (∀ j < n.toNat, a ≠ dest + BitVec.ofNat 32 j) → mem' a = mem a

section

variable {mem : Memory} {dest src n c : Word} {f : ℕ → Byte} {m : Machine}

theorem storesRegion_patched (mem : Memory) (dest n : Word) (f : ℕ → Byte) :
    StoresRegion mem (patched mem dest f 0 n.toNat) dest n f := by
  have hlt := n.isLt
  constructor
  · intro j hj
    exact patched_of_mem (by omega) (Nat.zero_le j) hj
  · intro a ha
    exact patched_of_ne fun j _ hj => ha j hj

/-- The byte that `memset` stores, and those of its word. -/
theorem extractLsb_fillWord (c : Word) {j : ℕ} (hj : j < 4) :
    (fillWord c).extractLsb' (8 * j) 8 = c.setWidth 8 := by
  have hbyte : ∀ (b : Byte) (j : Fin 4),
      ((b.setWidth 32) <<< 24 ||| (b.setWidth 32) <<< 16 ||| (b.setWidth 32) <<< 8 |||
        b.setWidth 32).extractLsb' (8 * j.val) 8 = b := by
    decide +kernel
  have hlow : c &&& 0xFF#32 = (c.setWidth 8).setWidth 32 := by
    have hmod : c.toNat &&& 255 = c.toNat % 256 := Nat.and_two_pow_sub_one_eq_mod c.toNat 8
    have hlt : c.toNat % 256 < 256 := Nat.mod_lt _ (by decide)
    apply BitVec.eq_of_toNat_eq
    rw [BitVec.toNat_and, BitVec.toNat_setWidth, BitVec.toNat_setWidth]
    exact hmod.trans (Nat.mod_eq_of_lt (by omega)).symm
  rw [fillWord, hlow]
  exact hbyte _ ⟨j, hj⟩

/-- The low byte of the word, `%al`. -/
theorem setWidth_fillWord (c : Word) : (fillWord c).setWidth 8 = c.setWidth 8 := by
  rw [← extractLsb_fillWord c (by decide : 0 < 4)]
  ext i hi
  simp

/-! ## `memset` -/

/-- The registers and memory of `memset` after `k` bytes. -/
def Filled (mem : Memory) (s c : Word) (k : ℕ) (m : Machine) : Prop :=
  m.gpr .eax = fillWord c ∧ m.gpr .edi = s + BitVec.ofNat 32 k ∧
    m.mem = patched mem s (fun _ => c.setWidth 8) 0 k

/-- The instructions for one byte of `memset`. -/
def memsetByte : List Op := [.storeb .edi, .addl 1#32 .edi]

theorem handlesBytes_memset (mem : Memory) (s c : Word) {n : ℕ} (hn : n < 2 ^ 32) :
    HandlesBytes memsetByte .stosl n (Filled mem s c) := by
  constructor
  · -- the two counters are not part of it
    rintro k m m' hgpr hmem ⟨heax, hedi, hm⟩
    refine ⟨?_, ?_, hmem.trans hm⟩
    · rw [hgpr .eax (by decide) (by decide), heax]
    · rw [hgpr .edi (by decide) (by decide), hedi]
  · -- one byte
    rintro k m hk ⟨heax, hedi, hm⟩
    refine ⟨heax, ?_, ?_⟩
    · exact add_ofNat_of_eq hedi 1
    · change Function.update m.mem (m.gpr .edi) ((m.gpr .eax).setWidth 8) = _
      rw [heax, hedi, hm, setWidth_fillWord]
      exact update_patched_hi (Nat.zero_le k) (by omega)
  · rintro m r (rfl | rfl) <;> rfl
  · -- one word
    rintro k m hk hdf ⟨heax, hedi, hm⟩
    refine ⟨?_, ?_, ?_⟩
    · rw [← heax]
      rfl
    · exact advance_of_eq hdf hedi 4
    · change storeWord m.mem (m.gpr .edi) (m.gpr .eax) = _
      rw [heax, hedi, hm]
      exact storeWord_patched (Nat.zero_le k) (by omega) fun j hj => extractLsb_fillWord c hj
  · rintro m r (rfl | rfl) <;> rfl
  · exact fun _ => rfl

/-! ## `memcpy` -/

/-- The registers and memory of `memcpy` after `k` bytes. -/
def Copied (mem : Memory) (dest src : Word) (k : ℕ) (m : Machine) : Prop :=
  m.gpr .edi = dest + BitVec.ofNat 32 k ∧ m.gpr .esi = src + BitVec.ofNat 32 k ∧
    m.mem = patched mem dest (fun j => mem (src + BitVec.ofNat 32 j)) 0 k

/-- No byte of the source is one of the destination. -/
def Disjoint (dest src : Word) (n : ℕ) : Prop :=
  ∀ i < n, ∀ j < n, src + BitVec.ofNat 32 i ≠ dest + BitVec.ofNat 32 j

/-- The instructions for one byte of `memcpy`. -/
def memcpyByte : List Op := [.loadb .esi, .storeb .edi, .addl 1#32 .edi, .addl 1#32 .esi]

theorem setWidth_append_byte (x : BitVec 24) (b : Byte) : (x ++ b).setWidth 8 = b := by
  apply BitVec.eq_of_getLsbD_eq
  intro i hi
  rw [BitVec.getLsbD_setWidth, BitVec.getLsbD_append]
  simp [hi]

theorem handlesBytes_memcpy (mem : Memory) {dest src : Word} {n : ℕ} (hn : n < 2 ^ 32)
    (hdisjoint : Disjoint dest src n) :
    HandlesBytes memcpyByte .movsl n (Copied mem dest src) := by
  -- a byte of the source is still the original one
  have hread : ∀ {k i : ℕ}, k ≤ n → i < n →
      patched mem dest (fun j => mem (src + BitVec.ofNat 32 j)) 0 k (src + BitVec.ofNat 32 i) =
        mem (src + BitVec.ofNat 32 i) := fun hk hi =>
    patched_of_ne fun d _ hd => hdisjoint _ hi d (by omega)
  constructor
  · -- the two counters are not part of it
    rintro k m m' hgpr hmem ⟨hedi, hesi, hm⟩
    refine ⟨?_, ?_, hmem.trans hm⟩
    · rw [hgpr .edi (by decide) (by decide), hedi]
    · rw [hgpr .esi (by decide) (by decide), hesi]
  · -- one byte, through the low part of `eax`
    rintro k m hk ⟨hedi, hesi, hm⟩
    refine ⟨?_, ?_, ?_⟩
    · exact add_ofNat_of_eq hedi 1
    · exact add_ofNat_of_eq hesi 1
    · change Function.update m.mem (m.gpr .edi)
        (((m.gpr .eax).extractLsb' 8 24 ++ m.mem (m.gpr .esi)).setWidth 8) = _
      rw [setWidth_append_byte, hesi, hedi, hm, hread (by omega) hk]
      exact update_patched_hi (f := fun j => mem (src + BitVec.ofNat 32 j)) (Nat.zero_le k)
        (by omega)
  · rintro m r (rfl | rfl) <;> rfl
  · -- one word, whose four bytes are all read before the first is stored
    rintro k m hk hdf ⟨hedi, hesi, hm⟩
    refine ⟨?_, ?_, ?_⟩
    · exact advance_of_eq hdf hedi 4
    · exact advance_of_eq hdf hesi 4
    · change storeWord m.mem (m.gpr .edi) (leWord m.mem (m.gpr .esi)) = _
      rw [hedi, hesi, hm]
      refine storeWord_patched (Nat.zero_le k) (by omega) fun j hj => ?_
      rw [extractLsb_leWord _ _ hj, BitVec.add_assoc, ← BitVec.ofNat_add]
      exact hread (by omega) (by omega)
  · rintro m r (rfl | rfl) <;> rfl
  · exact fun _ => rfl

/-! ## The routines and the plain loops -/

/-- The plain loop of `memset`: store the bytes one by one. -/
def setBytes (mem : Memory) (s : Word) (b : Byte) : ℕ → Memory
  | 0 => mem
  | k + 1 => Function.update (setBytes mem s b k) (s + BitVec.ofNat 32 k) b

/-- The plain loop of `memcpy`. A byte is read from memory as the bytes before it left it. -/
def copyBytes (mem : Memory) (dest src : Word) : ℕ → Memory
  | 0 => mem
  | k + 1 =>
    Function.update (copyBytes mem dest src k) (dest + BitVec.ofNat 32 k)
      (copyBytes mem dest src k (src + BitVec.ofNat 32 k))

theorem setBytes_eq (mem : Memory) (s : Word) (b : Byte) {k : ℕ} (hk : k ≤ 2 ^ 32) :
    setBytes mem s b k = patched mem s (fun _ => b) 0 k := by
  induction k with
  | zero => exact (patched_self mem s _ 0).symm
  | succ k ih =>
    rw [setBytes, ih (by omega)]
    exact update_patched_hi (f := fun _ => b) (Nat.zero_le k) (by omega)

theorem copyBytes_eq (mem : Memory) {dest src : Word} {n k : ℕ} (hdisjoint : Disjoint dest src n)
    (hk : k ≤ n) (hn : n ≤ 2 ^ 32) :
    copyBytes mem dest src k = patched mem dest (fun j => mem (src + BitVec.ofNat 32 j)) 0 k := by
  induction k with
  | zero => exact (patched_self mem dest _ 0).symm
  | succ k ih =>
    -- no byte of the source has been stored to
    have hread : copyBytes mem dest src k (src + BitVec.ofNat 32 k) =
        mem (src + BitVec.ofNat 32 k) := by
      rw [ih (by omega)]
      exact patched_of_ne fun d _ hd => hdisjoint k (by omega) d (by omega)
    rw [copyBytes, hread, ih (by omega)]
    exact update_patched_hi (f := fun j => mem (src + BitVec.ofNat 32 j)) (Nat.zero_le k)
      (by omega)

theorem memset_ends (s c n : Word) (m : Machine) :
    ∃ m', Ends memset (memsetArgs s c n m) m' ∧
      m'.mem = patched m.mem s (fun _ => c.setWidth 8) 0 n.toNat := by
  have hfirst : Filled m.mem s c (n.toNat - n.toNat) (memsetArgs s c n m) := by
    rw [Nat.sub_self]
    exact ⟨rfl, (BitVec.add_zero s).symm, (patched_self _ _ _ 0).symm⟩
  obtain ⟨m', hends, -, -, hmem⟩ := (handlesBytes_memset m.mem s c n.isLt).top n.isLt le_rfl hfirst
    (ofNat_toNat_self n).symm
  exact ⟨m', hends, hmem⟩

theorem memcpy_ends {dest src n : Word} (hdisjoint : Disjoint dest src n.toNat) (m : Machine) :
    ∃ m', Ends memcpy (copyArgs dest src n m) m' ∧
      m'.mem = patched m.mem dest (fun j => m.mem (src + BitVec.ofNat 32 j)) 0 n.toNat := by
  have hfirst : Copied m.mem dest src (n.toNat - n.toNat) (copyArgs dest src n m) := by
    rw [Nat.sub_self]
    exact ⟨(BitVec.add_zero dest).symm, (BitVec.add_zero src).symm, (patched_self _ _ _ 0).symm⟩
  obtain ⟨m', hends, -, -, hmem⟩ := (handlesBytes_memcpy m.mem n.isLt hdisjoint).top n.isLt le_rfl
    hfirst (ofNat_toNat_self n).symm
  exact ⟨m', hends, hmem⟩

/-- `memset` and `memcpy` end, with the memory that the plain loops leave: the bytes of the region
are stored, and no other one. The source of `memcpy` is apart from the destination. -/
theorem memset_memcpy_eq_loops (m : Machine) :
    (∀ s c n : Word, ∃ m', Ends memset (memsetArgs s c n m) m' ∧
      m'.mem = setBytes m.mem s (c.setWidth 8) n.toNat ∧
      StoresRegion m.mem m'.mem s n fun _ => c.setWidth 8) ∧
    ∀ dest src n : Word, Disjoint dest src n.toNat →
      ∃ m', Ends memcpy (copyArgs dest src n m) m' ∧
        m'.mem = copyBytes m.mem dest src n.toNat ∧
        StoresRegion m.mem m'.mem dest n fun j => m.mem (src + BitVec.ofNat 32 j) := by
  constructor
  · intro s c n
    obtain ⟨m', hends, hmem⟩ := memset_ends s c n m
    refine ⟨m', hends, hmem.trans (setBytes_eq _ _ _ n.isLt.le).symm, ?_⟩
    rw [hmem]
    exact storesRegion_patched m.mem s n _
  · intro dest src n hdisjoint
    obtain ⟨m', hends, hmem⟩ := memcpy_ends hdisjoint m
    refine ⟨m', hends, hmem.trans (copyBytes_eq _ hdisjoint le_rfl n.isLt.le).symm, ?_⟩
    rw [hmem]
    exact storesRegion_patched m.mem dest n _

/-- Six bytes to an address that is not aligned: three single ones, and the others behind. -/
theorem memcpy_unaligned :
    ∃ m', Ends memcpy (copyArgs 0x1001#32 0x2000#32 6#32 default) m' ∧
      m'.mem = copyBytes (default : Machine).mem 0x1001#32 0x2000#32 6 ∧
      StoresRegion (default : Machine).mem m'.mem 0x1001#32 6#32 fun j =>
        (default : Machine).mem (0x2000#32 + BitVec.ofNat 32 j) :=
  (memset_memcpy_eq_loops default).2 _ _ _ (by unfold Disjoint; decide)

/-! ## `memmove` -/

/-- The registers, the flag and memory of `memmove` after `k` bytes upwards. -/
def MovedUp (mem : Memory) (dest src : Word) (k : ℕ) (m : Machine) : Prop :=
  m.df = false ∧ Copied mem dest src k m

/-- The same for `k` of `n` bytes downwards, from the last one. -/
def MovedDown (mem : Memory) (dest src : Word) (n k : ℕ) (m : Machine) : Prop :=
  m.df = true ∧ m.gpr .edi = dest + BitVec.ofNat 32 (n - k) - 1#32 ∧
    m.gpr .esi = src + BitVec.ofNat 32 (n - k) - 1#32 ∧
      m.mem = patched mem dest (fun j => mem (src + BitVec.ofNat 32 j)) (n - k) n

theorem toNat_add_ofNat {a : Word} {j k : ℕ} (hk : a.toNat + k ≤ 2 ^ 32) (hj : j < k) :
    (a + BitVec.ofNat 32 j).toNat = a.toNat + j := by
  rw [BitVec.toNat_add, BitVec.toNat_ofNat, Nat.mod_eq_of_lt (by omega : j < 2 ^ 32),
    Nat.mod_eq_of_lt (by omega)]

/-- Upwards, the byte that is read is above all the bytes that have been stored. -/
theorem MovedUp.next {mem : Memory} {dest src : Word} {n k : ℕ} (hdest : dest.toNat + n ≤ 2 ^ 32)
    (hsrc : src.toNat + n ≤ 2 ^ 32) (hle : dest ≤ src) (hk : k < n) {m : Machine}
    (h : MovedUp mem dest src k m) : MovedUp mem dest src (k + 1) (repRound .movsb m) := by
  obtain ⟨hdf, hedi, hesi, hmem⟩ := h
  have hread : m.mem (src + BitVec.ofNat 32 k) = mem (src + BitVec.ofNat 32 k) := by
    rw [hmem]
    refine patched_of_ne fun d _ hd heq => ?_
    have hval := congrArg BitVec.toNat heq
    rw [toNat_add_ofNat hsrc hk, toNat_add_ofNat hdest (by omega)] at hval
    have hle' := BitVec.le_def.mp hle
    omega
  refine ⟨hdf, ?_, ?_, ?_⟩
  · exact advance_of_eq hdf hedi 1
  · exact advance_of_eq hdf hesi 1
  · change Function.update m.mem (m.gpr .edi) (m.mem (m.gpr .esi)) = _
    rw [hesi, hread, hedi, hmem]
    exact update_patched_hi (f := fun j => mem (src + BitVec.ofNat 32 j)) (Nat.zero_le k)
      (by omega)

/-- Downwards, it is below all of them. -/
theorem MovedDown.next {mem : Memory} {dest src : Word} {n k : ℕ}
    (hdest : dest.toNat + n ≤ 2 ^ 32) (hsrc : src.toNat + n ≤ 2 ^ 32) (hlt : src < dest)
    (hk : k < n) {m : Machine} (h : MovedDown mem dest src n k m) :
    MovedDown mem dest src n (k + 1) (repRound .movsb m) := by
  obtain ⟨hdf, hedi, hesi, hmem⟩ := h
  -- the pointers are one below the part that is done
  have hpred : n - k = n - (k + 1) + 1 := by omega
  rw [hpred, BitVec.ofNat_add, ← BitVec.add_assoc, BitVec.add_sub_cancel] at hedi hesi
  rw [hpred] at hmem
  have hread : m.mem (src + BitVec.ofNat 32 (n - (k + 1))) =
      mem (src + BitVec.ofNat 32 (n - (k + 1))) := by
    rw [hmem]
    refine patched_of_ne fun d hd hdn heq => ?_
    have hval := congrArg BitVec.toNat heq
    rw [toNat_add_ofNat hsrc (by omega), toNat_add_ofNat hdest hdn] at hval
    have hlt' := BitVec.lt_def.mp hlt
    omega
  refine ⟨hdf, ?_, ?_, ?_⟩
  · change (if m.df then m.gpr .edi - 1#32 else m.gpr .edi + 1#32) = _
    rw [hdf, hedi]
    rfl
  · change (if m.df then m.gpr .esi - 1#32 else m.gpr .esi + 1#32) = _
    rw [hdf, hesi]
    rfl
  · change Function.update m.mem (m.gpr .edi) (m.mem (m.gpr .esi)) = _
    rw [hesi, hread, hedi, hmem]
    exact update_patched_lo (f := fun j => mem (src + BitVec.ofNat 32 j)) (by omega) (by omega)

/-- The instructions of `memmove` before the jump. -/
def memmoveHead : List Op := [.movwFromSeg .ds .edx, .movwToSeg .edx .es, .cld, .cmpl .edi .esi]

/-- The instructions that rebase both pointers to the last byte. -/
def memmoveRebase : List Op :=
  [.leal (-1#32) .esi .ecx .esi, .leal (-1#32) .edi .ecx .edi, .std]

/-- In both directions `memmove` copies the original bytes of the source. The direction flag is
left set exactly if it has copied downwards. -/
theorem memmove_ends {dest src n : Word} (hdest : dest.toNat + n.toNat ≤ 2 ^ 32)
    (hsrc : src.toNat + n.toNat ≤ 2 ^ 32) (m : Machine) :
    ∃ m', Ends memmove (copyArgs dest src n m) m' ∧
      StoresRegion m.mem m'.mem dest n (fun j => m.mem (src + BitVec.ofNat 32 j)) ∧
      (m'.df = false ↔ dest ≤ src) := by
  let m₁ := execAll memmoveHead (copyArgs dest src n m)
  have hcf : m₁.cf = decide (src < dest) := rfl
  by_cases hlt : src < dest
  · -- downwards
    let m₂ := execAll memmoveRebase m₁
    have hfirst : MovedDown m.mem dest src n.toNat 0 m₂ := by
      refine ⟨rfl, ?_, ?_, (patched_self _ _ _ _).symm⟩
      · rw [Nat.sub_zero, ofNat_toNat_self, BitVec.sub_eq_add_neg]
        rfl
      · rw [Nat.sub_zero, ofNat_toNat_self, BitVec.sub_eq_add_neg]
        rfl
    have hlast := rep_induct (fun k m' hk h => h.next hdest hsrc hlt hk)
      (Nat.zero_add n.toNat).le hfirst
    rw [Nat.zero_add] at hlast
    refine ⟨rep .movsb n.toNat m₂, ?_, ?_, ?_⟩
    · refine .ops memmoveHead (.not_jae (hcf.trans (decide_eq_true hlt)) ?_)
      exact .ops memmoveRebase (.head rfl (.head rfl (.refl _)))
    · rw [hlast.2.2.2, Nat.sub_self]
      exact storesRegion_patched m.mem dest n _
    · rw [hlast.1]
      exact iff_of_false (by decide) (BitVec.not_le.mpr hlt)
  · -- upwards, also for regions that do not overlap
    have hle : dest ≤ src := BitVec.not_lt.mp hlt
    have hfirst : MovedUp m.mem dest src 0 m₁ :=
      ⟨rfl, (BitVec.add_zero dest).symm, (BitVec.add_zero src).symm, (patched_self _ _ _ 0).symm⟩
    have hlast := rep_induct (fun k m' hk h => h.next hdest hsrc hle hk)
      (Nat.zero_add n.toNat).le hfirst
    rw [Nat.zero_add] at hlast
    refine ⟨rep .movsb n.toNat m₁, ?_, ?_, ?_⟩
    · refine .ops memmoveHead (.jae ?_ (.head rfl (.head rfl (.refl _))))
      rw [hcf]
      exact decide_eq_true_iff.not.mpr hlt
    · rw [hlast.2.2.2]
      exact storesRegion_patched m.mem dest n _
    · exact iff_of_true hlast.1 hle

/-- `memmove` copies the original bytes, and nothing is left of it: other bytes are as they were,
and the direction flag is clear if it was clear before. -/
def MovesCleanly (dest src n : Word) (m : Machine) : Prop :=
  ∃ m', Ends memmove (copyArgs dest src n m) m' ∧
    StoresRegion m.mem m'.mem dest n (fun j => m.mem (src + BitVec.ofNat 32 j)) ∧
    (m.df = false → m'.df = false)

/-- For regions that do not wrap around: exactly if the destination is not above the source. -/
theorem movesCleanly_iff {dest src n : Word} (hdest : dest.toNat + n.toNat ≤ 2 ^ 32)
    (hsrc : src.toNat + n.toNat ≤ 2 ^ 32) (m : Machine) :
    MovesCleanly dest src n m ↔ (m.df = false → dest ≤ src) := by
  obtain ⟨m₁, hends, hstores, hdf⟩ := memmove_ends hdest hsrc m
  constructor
  · -- there is no other result than the one of the routine
    rintro ⟨m', hends', -, hclear⟩ hm
    rw [hends.unique hends'] at hdf
    exact hdf.mp (hclear hm)
  · exact fun hle => ⟨m₁, hends, hstores, fun hm => hdf.mpr (hle hm)⟩

/-- Eight bytes, four bytes downwards: overlapping regions, and the flag is left clear. -/
theorem movesCleanly_down : MovesCleanly 0x1000#32 0x1004#32 8#32 default :=
  (movesCleanly_iff (by decide) (by decide) default).mpr fun _ => by decide

/-- Eight bytes, four bytes upwards: the flag is left set. -/
theorem not_movesCleanly_up : ¬ MovesCleanly 0x1004#32 0x1000#32 8#32 default := by
  have hdest : (0x1004#32).toNat + (8#32).toNat ≤ 2 ^ 32 := by decide
  have hsrc : (0x1000#32).toNat + (8#32).toNat ≤ 2 ^ 32 := by decide
  obtain ⟨m₁, hends, -, hdf⟩ := memmove_ends hdest hsrc default
  rintro ⟨m', hends', -, hclear⟩
  rw [hends.unique hends', hclear rfl] at hdf
  exact absurd (hdf.mp rfl) (by decide)

end

end Ece391
