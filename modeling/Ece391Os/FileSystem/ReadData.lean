import Ece391Os.FileSystem.Image

/-!
# Reading a file

The bytes of a file are its data blocks in the order of the slots, up to its length.

* `contents` is the list of these bytes; `readData_contents`: a read from inside a valid file
  returns the next ones, as many as are asked for and left, and writes nothing behind them.
* `SameFile`: two images agree on a file, and may differ in the slots behind its last block.
* `readData_sameFile_iff`: a read does not depend on these slots, and reads nothing from the end of
  the file on, exactly when the slot at the end is not refused there. `not_sameRead_empty` reads two
  empty files.
-/

namespace Ece391

namespace FsImage

section Contents

variable (img : FsImage) (inode : Word)

/-- The memory behind the address of a data block. -/
def dataBlock (blockNumber : Word) : Buffer := fun j =>
  img.mem (img.blockPtr blockNumber + BitVec.ofNat 32 j)

/-- The number of blocks of a file. -/
def usedBlocks : ℕ := ((img.fileLength inode).toNat + 4095) / 4096

/-- The bytes of a file: its data blocks in the order of the slots, up to its length. -/
def contents : List Byte :=
  ((List.range (img.usedBlocks inode)).flatMap fun n =>
    (img.dataBlock (img.blockSlot inode (BitVec.ofNat 32 n))).bytesOf 0 4096).take
      (img.fileLength inode).toNat

/-- The slots of the file's blocks hold numbers of data blocks. -/
structure ValidFile : Prop where
  inode_lt : (inode.toNat : ℤ) < img.numOfInodes.toInt
  fileLength_le : (img.fileLength inode).toNat ≤ 1023 * 4096
  blockSlot_mem : ∀ n < img.usedBlocks inode,
    0 ≤ (img.blockSlot inode (BitVec.ofNat 32 n)).toInt ∧
      (img.blockSlot inode (BitVec.ofNat 32 n)).toInt < img.numOfBlocks.toInt

theorem contents_eq :
    img.contents inode = Buffer.bytesOf (img.fileByte inode) 0 (img.fileLength inode).toNat := by
  -- the blocks one behind the other are the bytes of the file and the rest of its last block
  have hblocks := Buffer.bytesOf_blocks
    (fun n => img.dataBlock (img.blockSlot inode (BitVec.ofNat 32 n)))
    (by omega : 0 < 4096) (img.usedBlocks inode)
  have hle : (img.fileLength inode).toNat ≤ img.usedBlocks inode * 4096 := by
    rw [usedBlocks]
    omega
  have htake := Buffer.take_drop_bytesOf (img.fileByte inode) (i := 0)
    ((Nat.zero_add _).trans_le hle)
  rw [contents, ← hblocks, ← htake, List.drop_zero]
  rfl

end Contents

variable {img img' : FsImage} {inode offset length : Word} {buf : Buffer}

/-- The block of a byte before the end of the file. -/
theorem div_lt_usedBlocks {j : ℕ} (hj : j < (img.fileLength inode).toNat) :
    j / 4096 < img.usedBlocks inode := by
  rw [usedBlocks]
  omega

theorem ValidFile.not_badBlock (h : img.ValidFile inode)
    (hoff : offset.toNat < (img.fileLength inode).toNat) : ¬ img.BadBlock inode offset := by
  obtain ⟨-, hlt⟩ := h.blockSlot_mem _ (div_lt_usedBlocks hoff)
  rw [BadBlock, div_block]
  omega

/-- A read from inside a valid file returns the number of bytes asked for, or left in the file. It
copies these bytes of the file, and writes nothing else. -/
theorem readData_contents (h : img.ValidFile inode)
    (hoff : offset.toNat < (img.fileLength inode).toNat) (buf : Buffer) (length : Word) :
    let r := min length.toNat ((img.fileLength inode).toNat - offset.toNat)
    (img.readData inode offset buf length).1.toInt = r ∧
      (img.readData inode offset buf length).2.bytesOf 0 r =
        ((img.contents inode).drop offset.toNat).take r ∧
      ∀ j, r ≤ j → (img.readData inode offset buf length).2 j = buf j := by
  intro r
  have hend : ¬ offset > img.fileLength inode := by
    rw [gt_iff_lt, BitVec.lt_def]
    omega
  have hlen := h.fileLength_le
  have hread : img.readData inode offset buf length = (BitVec.ofNat 32 r,
      buf.overwrite (fun j => img.fileByte inode (offset.toNat + j)) r) :=
    readData_eq hend (h.not_badBlock hoff)
  simp only [hread]
  refine ⟨?_, ?_, fun j hj => buf.overwrite_of_le _ _ hj⟩
  · -- a file has less than 2^31 bytes, so the count is not negative
    exact toInt_ofNat_of_lt (by omega)
  · rw [contents_eq, Buffer.take_drop_bytesOf _ (by omega)]
    refine Buffer.bytesOf_congr _ _ _ fun j hj => ?_
    rw [Nat.zero_add]
    exact buf.overwrite_of_lt _ _ hj

/-- An image of one file and one data block. -/
def oneFile (fileLength : Byte) (slots data : List Byte) : FsImage where
  filesystemBase := 0#32
  mem := memoryOf
    [(0, [0#8, 0#8, 0#8, 0#8, 1#8, 0#8, 0#8, 0#8, 1#8]),
      (4096, [fileLength, 0#8, 0#8, 0#8] ++ slots), (8192, data)]

theorem validFile_hello : (oneFile 5#8 [] (ascii "hello")).ValidFile 0#32 where
  inode_lt := by decide +kernel
  fileLength_le := by decide +kernel
  blockSlot_mem := by decide +kernel

/-- A read of 10 bytes from the second one on. -/
theorem readData_contents_hello :
    ((oneFile 5#8 [] (ascii "hello")).readData 0#32 1#32 (fun _ => 0#8) 10#32).1.toInt = 4 ∧
      ((oneFile 5#8 [] (ascii "hello")).readData 0#32 1#32 (fun _ => 0#8) 10#32).2.bytesOf 0 4 =
        (((oneFile 5#8 [] (ascii "hello")).contents 0#32).drop 1).take 4 ∧
      ∀ j, 4 ≤ j →
        ((oneFile 5#8 [] (ascii "hello")).readData 0#32 1#32 (fun _ => 0#8) 10#32).2 j = 0#8 := by
  have hlen : ((oneFile 5#8 [] (ascii "hello")).fileLength 0#32).toNat = 5 := by decide +kernel
  have hoff : (1#32 : Word).toNat < ((oneFile 5#8 [] (ascii "hello")).fileLength 0#32).toNat := by
    rw [hlen]
    decide
  have hread := readData_contents validFile_hello hoff (fun _ => 0#8) 10#32
  rw [hlen] at hread
  exact hread

/-! ## Slots behind the last block -/

/-- Two images agree on the length of a file, on the slots and the contents of its blocks, and on
the number of blocks. -/
structure SameFile (img img' : FsImage) (inode : Word) : Prop where
  fileLength : img'.fileLength inode = img.fileLength inode
  blockSlot : ∀ n < img.usedBlocks inode,
    img'.blockSlot inode (BitVec.ofNat 32 n) = img.blockSlot inode (BitVec.ofNat 32 n)
  dataBlock : ∀ n < img.usedBlocks inode, ∀ j < 4096,
    img'.dataBlock (img.blockSlot inode (BitVec.ofNat 32 n)) j =
      img.dataBlock (img.blockSlot inode (BitVec.ofNat 32 n)) j
  numOfBlocks : img'.numOfBlocks = img.numOfBlocks

namespace SameFile

theorem fileByte (h : SameFile img img' inode) {j : ℕ} (hj : j < (img.fileLength inode).toNat) :
    img'.fileByte inode j = img.fileByte inode j := by
  -- the block of the byte is one of the file
  rw [FsImage.fileByte, h.blockSlot _ (div_lt_usedBlocks hj)]
  exact h.dataBlock _ (div_lt_usedBlocks hj) _ (Nat.mod_lt j (by omega))

theorem badBlock_iff (h : SameFile img img' inode)
    (hoff : offset.toNat < (img.fileLength inode).toNat) :
    img'.BadBlock inode offset ↔ img.BadBlock inode offset := by
  rw [BadBlock, BadBlock, div_block, h.blockSlot _ (div_lt_usedBlocks hoff), h.numOfBlocks]

/-- A read that starts in the file. -/
theorem readData_eq (h : SameFile img img' inode)
    (hoff : offset.toNat < (img.fileLength inode).toNat) :
    img'.readData inode offset buf length = img.readData inode offset buf length := by
  have hend : ¬ offset > img.fileLength inode := by
    rw [gt_iff_lt, BitVec.lt_def]
    omega
  -- the first block is the same, so it is refused in both images or in none
  by_cases hbad : img.BadBlock inode offset
  · rw [readData_badBlock hend hbad, readData_badBlock (h.fileLength ▸ hend)
      ((h.badBlock_iff hoff).mpr hbad)]
  · rw [FsImage.readData_eq hend hbad, FsImage.readData_eq (h.fileLength ▸ hend)
      (mt (h.badBlock_iff hoff).mp hbad), h.fileLength]
    refine congrArg (Prod.mk _) (buf.overwrite_congr _ _ fun j hj => ?_)
    exact h.fileByte (by omega)

/-- A read from the end of the file on. -/
theorem readData_eq_zero_iff (hoff : (img.fileLength inode).toNat ≤ offset.toNat) (buf : Buffer)
    (length : Word) :
    img.readData inode offset buf length = (0#32, buf) ↔
      (offset = img.fileLength inode → ¬ img.BadBlock inode offset) := by
  by_cases heq : offset = img.fileLength inode
  · -- at the end exactly: the block number is tested before the count
    have hend : ¬ offset > img.fileLength inode := by
      rw [gt_iff_lt, BitVec.lt_def, heq]
      omega
    by_cases hbad : img.BadBlock inode offset
    · rw [readData_badBlock hend hbad]
      exact iff_of_false (by simp) fun hgood => hgood heq hbad
    · rw [FsImage.readData_eq hend hbad, ← heq, Nat.sub_self, Nat.min_zero]
      simp [hbad]
  · -- behind the end: no slot is read
    have hend : offset > img.fileLength inode := by
      rw [gt_iff_lt, BitVec.lt_def]
      have hne : offset.toNat ≠ (img.fileLength inode).toNat := fun h =>
        heq (BitVec.eq_of_toNat_eq h)
      omega
    rw [readData_past_end hend]
    simp [heq]

end SameFile

/-- A read of a file that two images agree on returns the same bytes from both, and returns nothing
from the end of the file on, exactly when the block number of the slot at the end of the file is not
refused in either image, should the read start there. -/
theorem readData_sameFile_iff (h : SameFile img img' inode) :
    (img'.readData inode offset buf length = img.readData inode offset buf length ∧
      ((img.fileLength inode).toNat ≤ offset.toNat →
        img.readData inode offset buf length = (0#32, buf) ∧
          img'.readData inode offset buf length = (0#32, buf))) ↔
      (offset = img.fileLength inode →
        ¬ img.BadBlock inode offset ∧ ¬ img'.BadBlock inode offset) := by
  by_cases hoff : (img.fileLength inode).toNat ≤ offset.toNat
  · have hoff' : (img'.fileLength inode).toNat ≤ offset.toNat := by rwa [h.fileLength]
    have hzero := SameFile.readData_eq_zero_iff hoff buf length
    have hzero' := SameFile.readData_eq_zero_iff hoff' buf length
    rw [h.fileLength] at hzero'
    constructor
    · rintro ⟨-, hread⟩ heq
      obtain ⟨hread, hread'⟩ := hread hoff
      exact ⟨hzero.mp hread heq, hzero'.mp hread' heq⟩
    · intro hgood
      have hread := hzero.mpr fun heq => (hgood heq).1
      have hread' := hzero'.mpr fun heq => (hgood heq).2
      exact ⟨hread'.trans hread.symm, fun _ => ⟨hread, hread'⟩⟩
  · -- the read starts inside the file, where the slots of both images agree
    refine iff_of_true ⟨h.readData_eq (by omega), fun hle => absurd hle hoff⟩ fun heq => ?_
    exact absurd (le_of_eq (congrArg BitVec.toNat heq.symm)) hoff

/-- Two empty files, one with a large number in its first slot. -/
theorem sameFile_empty : SameFile (oneFile 0#8 [] []) (oneFile 0#8 [7#8] []) 0#32 where
  fileLength := by decide +kernel
  blockSlot := by decide +kernel
  dataBlock := by
    have hused : (oneFile 0#8 [] []).usedBlocks 0#32 = 0 := by decide +kernel
    rw [hused]
    exact fun n hn => absurd hn (Nat.not_lt_zero n)
  numOfBlocks := by decide +kernel

theorem readData_sameFile_iff_empty :
    (oneFile 0#8 [7#8] []).readData 0#32 1#32 (fun _ => 0#8) 10#32 =
      (oneFile 0#8 [] []).readData 0#32 1#32 (fun _ => 0#8) 10#32 :=
  ((readData_sameFile_iff sameFile_empty).mpr fun heq => absurd heq (by decide +kernel)).1

/-- At the end of these files, one read ends and the other one fails. -/
theorem not_sameRead_empty :
    SameFile (oneFile 0#8 [] []) (oneFile 0#8 [7#8] []) 0#32 ∧
      (oneFile 0#8 [] []).readData 0#32 0#32 (fun _ => 0#8) 1024#32 = (0#32, fun _ => 0#8) ∧
      (oneFile 0#8 [7#8] []).readData 0#32 0#32 (fun _ => 0#8) 1024#32 = (-1#32, fun _ => 0#8) := by
  refine ⟨sameFile_empty, ?_, ?_⟩
  · -- slot 0 holds 0, which is not above the number of blocks
    rw [FsImage.readData_eq (by decide +kernel) (by decide +kernel)]
    rfl
  · -- slot 0 holds 7
    exact readData_badBlock (by decide +kernel) (by decide +kernel)

end FsImage

end Ece391
