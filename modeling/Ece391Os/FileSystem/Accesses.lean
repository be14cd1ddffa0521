import Ece391Os.FileSystem.ReadData

/-!
# What a read touches

`read_data` checks the number of the first block only, with `>` and as a signed integer. It checks
no later block, no inode number, and not the index of a slot.

* `readAccesses` lists the inode words and the data bytes that a call reads, in order.
* `StaysInside`: a call returns -1, or all it reads is in inodes and data blocks of the image; and
  it returns -1 for a bad inode number and for a bad block number in the requested range.
* `staysInside_iff` says for which inode, offset and length this is so, on any image.
  `not_staysInside_last_block` reads a block behind the last one.
-/

namespace Ece391

namespace FsImage

/-- The address of an inode word, or of a data byte, that `read_data` loads. -/
inductive Access
  | inodeWord (a : Word)
  | dataByte (a : Word)
  deriving DecidableEq

section Accesses

variable (img : FsImage) (inode offset : Word)

/-- The address of data block slot `n` of an inode. -/
def slotPtr (n : Word) : Word := img.inodePtr inode + (n + 1#32) * 4#32

/-- What the body of the loop of `read_data` loads. -/
def stepAccesses (s : ReadState) : List Access :=
  .dataByte (s.blockPtr + s.offsetTemp) ::
    -- at the end of a block the next slot is fetched, in the file or not
    if (s.offsetTemp + 1#32).toInt > 4095 then
      [.inodeWord (img.inodePtr inode + (offset / 4096#32 + (s.k + 1#32)) * 4#32)]
    else []

/-- What the loop loads, over at most `fuel` bytes. -/
def loopAccesses (length filelength : Word) : ℕ → ReadState → List Access
  | 0, _ => []
  | fuel + 1, s =>
    if s.i < length ∧ offset + s.i < filelength then
      img.stepAccesses inode offset s ++
        loopAccesses length filelength fuel (img.readStep inode offset s)
    else []

/-- What `read_data` loads from the image: it follows `readData`. -/
def readAccesses (buf : Buffer) (length : Word) : List Access :=
  let filelength := img.fileLength inode
  .inodeWord (img.inodePtr inode) ::
    if offset > filelength then []
    else
      let length := if length > filelength then filelength else length
      let blockNumber := img.blockSlot inode (offset / 4096#32)
      .inodeWord (img.slotPtr inode (offset / 4096#32)) ::
        -- the only test of a block number, with `>` as in the source
        if blockNumber.toInt > img.numOfBlocks.toInt then []
        else if length = 0#32 then []
        else
          img.loopAccesses inode offset length filelength length.toNat
            { i := 0#32, k := 1#32, offsetTemp := offset % 4096#32,
              blockPtr := img.blockPtr blockNumber, buf }

/-- The inode number is below `num_of_inodes`. -/
def InodeBelow : Prop := (inode.toNat : ℤ) < img.numOfInodes.toInt

/-- The number of a data block. -/
def BlockInRange (blockNumber : Word) : Prop :=
  0 ≤ blockNumber.toInt ∧ blockNumber.toInt < img.numOfBlocks.toInt

/-- The access is to a word in the 4 KB block of an inode, or to a byte of a data block. -/
def Inside : Access → Prop
  | .inodeWord a => ∃ j : Word, img.InodeBelow j ∧ (a - img.inodePtr j).toNat + 4 ≤ 4096
  | .dataByte a => ∃ n : Word, img.BlockInRange n ∧ (a - img.blockPtr n).toNat < 4096

/-- The number of bytes of the file in the requested range. -/
def requested (length : Word) : ℕ :=
  min length.toNat ((img.fileLength inode).toNat - offset.toNat)

/-- The block number in the slot of byte `offset + m` of the file. -/
def slotAt (m : ℕ) : Word := img.blockSlot inode (BitVec.ofNat 32 ((offset.toNat + m) / 4096))

/-- The call returns -1 or loads from inside the image only, and returns -1 if the inode number or a
slot that covers the requested range is bad. -/
def StaysInside (buf : Buffer) (length : Word) : Prop :=
  ((img.readData inode offset buf length).1 = -1#32 ∨
    ∀ a ∈ img.readAccesses inode offset buf length, img.Inside a) ∧
  ((¬ img.InodeBelow inode ∨ ∃ m < img.requested inode offset length,
      ¬ img.BlockInRange (img.slotAt inode offset m)) →
    (img.readData inode offset buf length).1 = -1#32)

/-- The return value is -1: the first block number is refused, or the count is 0xFFFFFFFF. -/
def ReturnsError (length : Word) : Prop :=
  offset ≤ img.fileLength inode ∧ img.BadBlock inode offset ∨
    offset = 0#32 ∧ length = -1#32 ∧ img.fileLength inode = -1#32

/-- The inode, the slots of the requested range and the words of these slots are in the image. The
word of the next slot too, if the range ends with a block. -/
def RequestInside (length : Word) : Prop :=
  img.InodeBelow inode ∧
    (∀ m < img.requested inode offset length, img.BlockInRange (img.slotAt inode offset m)) ∧
    (offset ≤ img.fileLength inode → ∀ m ≤ img.requested inode offset length,
      img.Inside (.inodeWord (img.slotPtr inode (BitVec.ofNat 32 ((offset.toNat + m) / 4096)))))

instance : Decidable (img.InodeBelow inode) := inferInstanceAs (Decidable (_ < _))

instance (blockNumber : Word) : Decidable (img.BlockInRange blockNumber) :=
  inferInstanceAs (Decidable (_ ∧ _))

instance (length : Word) : Decidable (img.ReturnsError inode offset length) :=
  inferInstanceAs (Decidable (_ ∧ _ ∨ _))

/-- What an iteration loads at byte `offset + m` of the file. -/
def byteAccesses (m : ℕ) : List Access :=
  .dataByte (img.blockPtr (img.slotAt inode offset m) +
      BitVec.ofNat 32 ((offset.toNat + m) % 4096)) ::
    if (offset.toNat + m) % 4096 = 4095 then
      [.inodeWord (img.slotPtr inode (BitVec.ofNat 32 ((offset.toNat + (m + 1)) / 4096)))]
    else []

end Accesses

variable {img : FsImage} {inode offset length : Word} {buf : Buffer} {m : ℕ}

/-! ## The list of accesses -/

theorem stepAccesses_readAt :
    img.stepAccesses inode offset (img.readAt inode offset buf m) =
      img.byteAccesses inode offset m := by
  have htemp : BitVec.ofNat 32 ((offset.toNat + m) % 4096) + 1#32 =
      BitVec.ofNat 32 ((offset.toNat + m) % 4096 + 1) := BitVec.ofNat_add .. |>.symm
  have hint : (BitVec.ofNat 32 ((offset.toNat + m) % 4096 + 1)).toInt =
      (((offset.toNat + m) % 4096 + 1 : ℕ) : ℤ) := toInt_ofNat_of_lt (by omega)
  simp only [stepAccesses, byteAccesses, readAt, slotAt, htemp, hint]
  apply congrArg (List.cons _)
  by_cases hend : (offset.toNat + m) % 4096 = 4095
  · -- the slot that is fetched is that of the next byte
    have hslot : offset / 4096#32 +
        (BitVec.ofNat 32 ((offset.toNat + m) / 4096 - offset.toNat / 4096 + 1) + 1#32) =
          BitVec.ofNat 32 ((offset.toNat + (m + 1)) / 4096) + 1#32 := by
      rw [div_block, ← BitVec.add_assoc, ← BitVec.ofNat_add]
      congr 2
      omega
    rw [if_pos (by omega), if_pos hend, slotPtr, hslot]
  · rw [if_neg (by omega), if_neg hend]

/-- What the loop loads from byte `offset + m` on. -/
theorem loopAccesses_readAt {filelength : Word} (hoff : offset.toNat ≤ filelength.toNat)
    {fuel : ℕ} (hm : m ≤ min length.toNat (filelength.toNat - offset.toNat))
    (hfuel : length.toNat ≤ m + fuel) :
    img.loopAccesses inode offset length filelength fuel (img.readAt inode offset buf m) =
      (List.range' m (min length.toNat (filelength.toNat - offset.toNat) - m)).flatMap
        (img.byteAccesses inode offset) := by
  have hlen := filelength.isLt
  induction fuel generalizing m with
  | zero =>
    have hdone : min length.toNat (filelength.toNat - offset.toNat) - m = 0 := by omega
    rw [hdone]
    rfl
  | succ fuel ih =>
    have hmlt : m < 4294967296 := by omega
    -- the loop goes on exactly while there are bytes left
    have hguard := readAt_guard_iff img inode buf hoff hmlt hm
    rw [loopAccesses]
    by_cases hlt : m < min length.toNat (filelength.toNat - offset.toNat)
    · obtain ⟨rest, hrest⟩ := Nat.exists_eq_add_of_lt hlt
      have hcount : min length.toNat (filelength.toNat - offset.toNat) - m = rest + 1 := by omega
      have hcount' : min length.toNat (filelength.toNat - offset.toNat) - (m + 1) = rest := by
        omega
      rw [if_pos (hguard.mpr hlt), readStep_readAt hmlt, stepAccesses_readAt,
        ih (by omega) (by omega), hcount, hcount', List.range'_succ, List.flatMap_cons]
    · have hdone : min length.toNat (filelength.toNat - offset.toNat) - m = 0 := by omega
      rw [if_neg fun h => hlt (hguard.mp h), hdone]
      rfl

/-- What a call loads that is not refused: the length, the first slot, and the bytes. -/
theorem readAccesses_eq (h : ¬ offset > img.fileLength inode) (hbad : ¬ img.BadBlock inode offset) :
    img.readAccesses inode offset buf length =
      .inodeWord (img.inodePtr inode) :: .inodeWord (img.slotPtr inode (offset / 4096#32)) ::
        (List.range (img.requested inode offset length)).flatMap
          (img.byteAccesses inode offset) := by
  have hoff : offset.toNat ≤ (img.fileLength inode).toNat := by
    rw [gt_iff_lt, BitVec.lt_def] at h
    omega
  set l : Word := if length > img.fileLength inode then img.fileLength inode else length with hl
  -- the length is cut to that of the whole file, which leaves the same bytes
  have hmin : min l.toNat ((img.fileLength inode).toNat - offset.toNat) =
      img.requested inode offset length := min_clamp _ _ _
  rw [BadBlock] at hbad
  rw [readAccesses, if_neg h]
  simp only [← hl]
  rw [if_neg hbad]
  by_cases hzero : l = 0#32
  · rw [if_pos hzero, ← hmin, hzero]
    simp
  · rw [if_neg hzero, readAt_zero, loopAccesses_readAt hoff (Nat.zero_le _) (by omega), hmin,
      Nat.sub_zero, List.range_eq_range']

/-! ## Inside the image -/

theorem inside_inodePtr (h : img.InodeBelow inode) :
    img.Inside (.inodeWord (img.inodePtr inode)) := by
  refine ⟨inode, h, ?_⟩
  rw [BitVec.sub_self]
  decide

theorem inside_dataByte (h : img.BlockInRange (img.slotAt inode offset m)) :
    img.Inside (.dataByte (img.blockPtr (img.slotAt inode offset m) +
      BitVec.ofNat 32 ((offset.toNat + m) % 4096))) := by
  refine ⟨_, h, ?_⟩
  -- the offset in the block is less than 4096
  rw [BitVec.add_comm, BitVec.add_sub_cancel, toNat_ofNat_of_lt (by omega)]
  omega

/-- Of the bytes in the requested range, and of the words of their slots. -/
theorem forall_byteAccesses_inside {n : ℕ}
    (hblocks : ∀ m < n, img.BlockInRange (img.slotAt inode offset m)) :
    ((∀ m ≤ n, img.Inside
        (.inodeWord (img.slotPtr inode (BitVec.ofNat 32 ((offset.toNat + m) / 4096))))) ↔
      img.Inside (.inodeWord (img.slotPtr inode (offset / 4096#32))) ∧
        ∀ a ∈ (List.range n).flatMap (img.byteAccesses inode offset), img.Inside a) := by
  induction n with
  | zero => simp [div_block]
  | succ n ih =>
    have ih := ih fun m hm => hblocks m (Nat.lt_succ_of_lt hm)
    -- the word of one more slot
    have hsplit : (∀ m ≤ n + 1, img.Inside
        (.inodeWord (img.slotPtr inode (BitVec.ofNat 32 ((offset.toNat + m) / 4096))))) ↔
      (∀ m ≤ n, img.Inside
        (.inodeWord (img.slotPtr inode (BitVec.ofNat 32 ((offset.toNat + m) / 4096))))) ∧
        img.Inside (.inodeWord
          (img.slotPtr inode (BitVec.ofNat 32 ((offset.toNat + (n + 1)) / 4096)))) := by
      simp only [Nat.le_succ_iff, or_imp, forall_and, forall_eq]
    have hbyte := inside_dataByte (hblocks n n.lt_succ_self)
    rw [hsplit, List.range_succ, List.flatMap_append, List.flatMap_singleton,
      List.forall_mem_append, ← and_assoc, ← ih, byteAccesses, List.forall_mem_cons,
      and_iff_right hbyte]
    refine and_congr_right fun hwords => ?_
    by_cases hend : (offset.toNat + n) % 4096 = 4095
    · -- the byte ends a block, and the word of the next slot is read
      rw [if_pos hend, List.forall_mem_singleton]
    · -- the slot of the byte before
      have hsame : (offset.toNat + (n + 1)) / 4096 = (offset.toNat + n) / 4096 := by omega
      rw [if_neg hend, hsame]
      exact iff_of_true (hwords n le_rfl) (List.forall_mem_nil _)

/-- When the call returns -1. -/
theorem readData_eq_neg_one_iff :
    (img.readData inode offset buf length).1 = -1#32 ↔ img.ReturnsError inode offset length := by
  by_cases hend : offset > img.fileLength inode
  · rw [readData_past_end hend]
    apply iff_of_false (by simp)
    rw [gt_iff_lt, BitVec.lt_def] at hend
    rintro (⟨hle, -⟩ | ⟨rfl, -, -⟩)
    · rw [BitVec.le_def] at hle
      omega
    · exact absurd hend (Nat.not_lt_zero _)
  · have hle : offset ≤ img.fileLength inode := BitVec.not_lt.mp hend
    by_cases hbad : img.BadBlock inode offset
    · rw [readData_badBlock hend hbad]
      exact iff_of_true rfl (Or.inl ⟨hle, hbad⟩)
    · -- the count is -1 only for all of a file of 0xFFFFFFFF bytes
      rw [readData_eq hend hbad, ReturnsError, or_iff_right fun h => hbad h.2]
      have hlen := (img.fileLength inode).isLt
      have hneg : (-1#32 : Word).toNat = 4294967295 := rfl
      have hzero : (0#32 : Word).toNat = 0 := rfl
      rw [← BitVec.toNat_inj, ← BitVec.toNat_inj, ← BitVec.toNat_inj, ← BitVec.toNat_inj,
        toNat_ofNat_of_lt (by omega), hneg, hzero]
      omega

/-- A call stays inside the image exactly when it returns -1, or its inode, the slots of the
requested range and the words of these slots are in the image. -/
theorem staysInside_iff :
    img.StaysInside inode offset buf length ↔
      img.ReturnsError inode offset length ∨ img.RequestInside inode offset length := by
  rw [StaysInside, readData_eq_neg_one_iff]
  by_cases herror : img.ReturnsError inode offset length
  · simp [herror]
  · -- a call that does not return -1 must not meet a bad number at all
    have hgood : ((¬ img.InodeBelow inode ∨ ∃ m < img.requested inode offset length,
        ¬ img.BlockInRange (img.slotAt inode offset m)) → False) ↔
          img.InodeBelow inode ∧ ∀ m < img.requested inode offset length,
            img.BlockInRange (img.slotAt inode offset m) := by
      simp only [imp_false, not_or, not_not, not_exists, not_and]
    simp only [herror, false_or, hgood]
    rw [RequestInside, and_comm, ← and_assoc]
    refine and_congr_right fun hrequest => ?_
    obtain ⟨hinode, hblocks⟩ := hrequest
    have hlength := inside_inodePtr hinode
    by_cases hend : offset > img.fileLength inode
    · -- behind the end only the length is read
      have hnot : ¬ offset ≤ img.fileLength inode := BitVec.not_le.mpr hend
      rw [readAccesses]
      simp only [hend, if_true, List.forall_mem_singleton, hlength, hnot, false_implies]
    · have hle : offset ≤ img.fileLength inode := BitVec.not_lt.mp hend
      have hbad : ¬ img.BadBlock inode offset := fun hbad => herror (Or.inl ⟨hle, hbad⟩)
      rw [readAccesses_eq hend hbad, List.forall_mem_cons, List.forall_mem_cons,
        and_iff_right hlength, ← forall_byteAccesses_inside hblocks]
      exact ⟨fun hwords _ => hwords, fun hwords => hwords hle⟩

/-- The file of the image has one block, with the number behind the last one. -/
theorem not_staysInside_last_block :
    ¬ (oneFile 5#8 [1#8] []).StaysInside 0#32 0#32 (fun _ => 0#8) 5#32 := by
  rintro ⟨-, hbad⟩
  -- the number of the block is bad, so the call would have to return -1
  have hneg := hbad (Or.inr ⟨0, by decide +kernel, by decide +kernel⟩)
  rw [readData_eq_neg_one_iff] at hneg
  revert hneg
  decide +kernel

end FsImage

end Ece391
