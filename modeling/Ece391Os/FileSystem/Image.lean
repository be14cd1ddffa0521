import Ece391Os.Kernel.LibC
import Mathlib.Tactic.Ring

/-!
# The file-system image

`filesystem.c` over the memory of the image: a boot block with the three counts and 64-byte
directory entries, one 4 KB block for each inode, and the data blocks. Addresses are 32-bit words,
so every offset wraps where it wraps in the source; counts, lengths and block numbers are read as
the signed or unsigned integers the source compares them as.

* `readDentryByName` and `readDentryByIndex` decode a directory entry.
* `readData` copies bytes of a file; `readLoop` is its loop, with the four cursors of the source.
* `fileByte img inode j` is byte `j` of a file by its block slots, and `readData_eq` shows that
  `readData` copies these bytes, whatever the alignment of the request.
-/

namespace Ece391

/-- The memory that holds the image and the address it starts at. -/
structure FsImage where
  mem : Word → Byte
  filesystemBase : Word

/-- The fields of a `dentry_t` that are read: the reserved bytes are left out. -/
structure Dentry where
  filename : List Byte
  filetype : Word
  inodeNum : Word
  deriving DecidableEq

/-- A memory that holds byte strings at given addresses and zeros elsewhere. -/
def memoryOf : List (ℕ × List Byte) → Word → Byte
  | [], _ => 0#8
  | (start, bytes) :: rest, a =>
    if start ≤ a.toNat ∧ a.toNat < start + bytes.length then bytes.getD (a.toNat - start) 0#8
    else memoryOf rest a

theorem memoryOf_eq_zero {segments : List (ℕ × List Byte)} {a : Word}
    (h : ∀ seg ∈ segments, a.toNat < seg.1 ∨ seg.1 + seg.2.length ≤ a.toNat) :
    memoryOf segments a = 0#8 := by
  induction segments with
  | nil => rfl
  | cons seg segments ih =>
    obtain ⟨start, bytes⟩ := seg
    have hseg := h _ List.mem_cons_self
    rw [memoryOf, if_neg (by simp only at hseg; omega)]
    exact ih fun seg hseg => h seg (List.mem_cons_of_mem _ hseg)

namespace FsImage

variable (img : FsImage)

/-- `num_of_entries` -/
def numOfEntries : Word := leWord img.mem img.filesystemBase

/-- `num_of_inodes` -/
def numOfInodes : Word := leWord img.mem (img.filesystemBase + 4#32)

/-- `num_of_blocks` -/
def numOfBlocks : Word := leWord img.mem (img.filesystemBase + 8#32)

/-- `inode_ptr_base` -/
def inodePtrBase : Word := img.filesystemBase + 4096#32

/-- `entry_ptr_base` -/
def entryPtrBase : Word := img.filesystemBase + 64#32

/-- `data_block_ptr_base` -/
def dataBlockPtrBase : Word := img.filesystemBase + (img.numOfInodes + 1#32) * 4096#32

/-- The address of directory entry `i`. -/
def entryPtr (i : ℕ) : Word := img.entryPtrBase + 64#32 * BitVec.ofNat 32 i

/-- The memory of directory entry `i`, whose first 32 bytes are its name. -/
def entryName (i : ℕ) : Buffer := fun j => img.mem (img.entryPtr i + BitVec.ofNat 32 j)

/-- The fields of directory entry `i`. -/
def dentry (i : ℕ) : Dentry where
  filename := (img.entryName i).bytesOf 0 32
  filetype := leWord img.mem (img.entryPtr i + 32#32)
  inodeNum := leWord img.mem (img.entryPtr i + 36#32)

/-- The loop of `read_dentry_by_name` from entry `i` on, with `n` entries left. -/
def findEntry (fname : Buffer) : ℕ → ℕ → ℕ
  | 0, i => i
  | n + 1, i => if strncmp (img.entryName i) fname 32 ≠ 0 then findEntry fname n (i + 1) else i

/-- The number of directory entries the loops visit: the count is a signed integer. -/
def entryCount : ℕ := img.numOfEntries.toInt.toNat

/-- `read_dentry_by_name`: the first entry that matches, or `none` for the return value -1. -/
def readDentryByName (fname : Buffer) : Option Dentry :=
  let i := img.findEntry fname img.entryCount 0
  if i < img.entryCount then some (img.dentry i) else none

/-- `read_dentry_by_index`: the index is compared as an unsigned integer. -/
def readDentryByIndex (index : Word) : Option Dentry :=
  if index.toNat ≥ img.numOfEntries.toNat then none else some (img.dentry index.toNat)

/-- The address of an inode's block. -/
def inodePtr (inode : Word) : Word := img.inodePtrBase + inode * 4096#32

/-- The length field of an inode. -/
def fileLength (inode : Word) : Word := leWord img.mem (img.inodePtr inode)

/-- Data block slot `n` of an inode: the word after the length and `n` slots. -/
def blockSlot (inode n : Word) : Word := leWord img.mem (img.inodePtr inode + (n + 1#32) * 4#32)

/-- The address of a data block. -/
def blockPtr (blockNumber : Word) : Word := img.dataBlockPtrBase + blockNumber * 4096#32

/-- The cursors of the loop of `read_data`, and the destination buffer. -/
structure ReadState where
  i : Word
  k : Word
  offsetTemp : Word
  blockPtr : Word
  buf : Buffer

/-- The body of the loop of `read_data`: copy one byte, and fetch the next block at a block end. -/
def readStep (inode offset : Word) (s : ReadState) : ReadState :=
  let buf := Function.update s.buf s.i.toNat (img.mem (s.blockPtr + s.offsetTemp))
  let i := s.i + 1#32
  let offsetTemp := s.offsetTemp + 1#32
  if offsetTemp.toInt > 4095 then
    let k := s.k + 1#32
    -- the next slot, whose number is not checked
    let blockNumber := leWord img.mem (img.inodePtr inode + (offset / 4096#32 + k) * 4#32)
    { i, k, offsetTemp := 0#32, blockPtr := img.blockPtr blockNumber, buf }
  else
    { i, k := s.k, offsetTemp, blockPtr := s.blockPtr, buf }

/-- The loop of `read_data`, over at most `fuel` bytes. -/
def readLoop (inode offset length filelength : Word) : ℕ → ReadState → ReadState
  | 0, s => s
  | fuel + 1, s =>
    if s.i < length ∧ offset + s.i < filelength then
      readLoop inode offset length filelength fuel (img.readStep inode offset s)
    else s

/-- `read_data`: the return value and the destination buffer after the call. Only the block number
of the first slot is checked, as a signed integer. -/
def readData (inode offset : Word) (buf : Buffer) (length : Word) : Word × Buffer :=
  let filelength := img.fileLength inode
  if offset > filelength then (0#32, buf)
  else
    let length := if length > filelength then filelength else length
    let blockNumber := img.blockSlot inode (offset / 4096#32)
    if blockNumber.toInt > img.numOfBlocks.toInt then (-1#32, buf)
    else if length = 0#32 then (0#32, buf)
    else
      -- `i` starts at 0 and grows by one, so `length` iterations are enough
      let s := img.readLoop inode offset length filelength length.toNat
        { i := 0#32, k := 1#32, offsetTemp := offset % 4096#32,
          blockPtr := img.blockPtr blockNumber, buf }
      (s.i, s.buf)

/-! ## The bytes of a file -/

/-- Byte `j` of a file: the byte `j % 4096` of the block in slot `j / 4096`. -/
def fileByte (inode : Word) (j : ℕ) : Byte :=
  img.mem (img.blockPtr (img.blockSlot inode (BitVec.ofNat 32 (j / 4096))) +
    BitVec.ofNat 32 (j % 4096))

/-- The slot of the block that holds byte `offset` is refused by the check of `read_data`. -/
def BadBlock (inode offset : Word) : Prop :=
  (img.blockSlot inode (offset / 4096#32)).toInt > img.numOfBlocks.toInt

instance (inode offset : Word) : Decidable (img.BadBlock inode offset) :=
  inferInstanceAs (Decidable (_ > _))

variable {img} {inode offset length : Word} {buf : Buffer}

theorem toNat_ofNat_of_lt {n : ℕ} (h : n < 4294967296) : (BitVec.ofNat 32 n).toNat = n := by
  rw [BitVec.toNat_ofNat]
  exact Nat.mod_eq_of_lt h

theorem toInt_ofNat_of_lt {n : ℕ} (h : n < 2147483648) : (BitVec.ofNat 32 n).toInt = n := by
  have hnat : (BitVec.ofNat 32 n).toNat = n := toNat_ofNat_of_lt (by omega)
  rw [BitVec.toInt_eq_toNat_of_lt (by omega), hnat]

theorem ofNat_ne_neg_one {n : ℕ} (h : n < 4294967295) : BitVec.ofNat 32 n ≠ -1#32 := by
  intro heq
  have hval := congrArg BitVec.toNat heq
  have hneg : (-1#32 : Word).toNat = 4294967295 := rfl
  rw [toNat_ofNat_of_lt (by omega), hneg] at hval
  omega

/-- A quotient by the block size, as a word. -/
theorem div_block (w : Word) : w / 4096#32 = BitVec.ofNat 32 (w.toNat / 4096) := by
  have hlt : w.toNat / 4096 < 4294967296 := by omega
  apply BitVec.eq_of_toNat_eq
  rw [BitVec.toNat_udiv]
  exact (toNat_ofNat_of_lt hlt).symm

/-- A remainder by the block size, as a word. -/
theorem mod_block (w : Word) : w % 4096#32 = BitVec.ofNat 32 (w.toNat % 4096) := by
  have hlt : w.toNat % 4096 < 4294967296 := by omega
  apply BitVec.eq_of_toNat_eq
  rw [BitVec.toNat_umod]
  exact (toNat_ofNat_of_lt hlt).symm

/-- The cursors after `m` bytes have been copied: they are functions of the position `offset + m`
in the file. -/
def readAt (img : FsImage) (inode offset : Word) (buf : Buffer) (m : ℕ) : ReadState where
  i := BitVec.ofNat 32 m
  k := BitVec.ofNat 32 ((offset.toNat + m) / 4096 - offset.toNat / 4096 + 1)
  offsetTemp := BitVec.ofNat 32 ((offset.toNat + m) % 4096)
  blockPtr := img.blockPtr (img.blockSlot inode (BitVec.ofNat 32 ((offset.toNat + m) / 4096)))
  buf := buf.overwrite (fun j => img.fileByte inode (offset.toNat + j)) m

/-- The cursors before the loop. -/
theorem readAt_zero :
    (⟨0#32, 1#32, offset % 4096#32, img.blockPtr (img.blockSlot inode (offset / 4096#32)), buf⟩ :
      ReadState) = img.readAt inode offset buf 0 := by
  simp [readAt, mod_block, div_block]

/-- Clamping the request to the file does not change the number of bytes that are left of it. -/
theorem min_clamp (length filelength : Word) (k : ℕ) :
    min (if length > filelength then filelength else length).toNat (filelength.toNat - k) =
      min length.toNat (filelength.toNat - k) := by
  split_ifs with hgt
  · rw [gt_iff_lt, BitVec.lt_def] at hgt
    omega
  · rfl

/-- One iteration moves every cursor to the next position, inside a block or across its end. -/
theorem readStep_readAt {m : ℕ} (hm : m < 4294967296) :
    img.readStep inode offset (img.readAt inode offset buf m) =
      img.readAt inode offset buf (m + 1) := by
  have hbuf : Function.update (img.readAt inode offset buf m).buf
        (img.readAt inode offset buf m).i.toNat
        (img.mem ((img.readAt inode offset buf m).blockPtr +
          (img.readAt inode offset buf m).offsetTemp)) =
      (img.readAt inode offset buf (m + 1)).buf := by
    simp only [readAt, toNat_ofNat_of_lt hm]
    exact Buffer.overwrite_succ buf (fun j => img.fileByte inode (offset.toNat + j)) m
  have hi : BitVec.ofNat 32 m + 1#32 = BitVec.ofNat 32 (m + 1) := BitVec.ofNat_add .. |>.symm
  have htemp : BitVec.ofNat 32 ((offset.toNat + m) % 4096) + 1#32 =
      BitVec.ofNat 32 ((offset.toNat + m) % 4096 + 1) := BitVec.ofNat_add .. |>.symm
  -- the comparison with 4095 is one of small numbers
  have hint : (BitVec.ofNat 32 ((offset.toNat + m) % 4096 + 1)).toInt =
      (((offset.toNat + m) % 4096 + 1 : ℕ) : ℤ) := toInt_ofNat_of_lt (by omega)
  rw [readStep, hbuf]
  simp only [readAt, hi, htemp, hint]
  by_cases hend : (offset.toNat + m) % 4096 = 4095
  · -- the end of a block: the next slot is fetched
    have hdiv : (offset.toNat + (m + 1)) / 4096 = (offset.toNat + m) / 4096 + 1 := by omega
    have hmod : (offset.toNat + (m + 1)) % 4096 = 0 := by omega
    have hk : BitVec.ofNat 32 ((offset.toNat + m) / 4096 - offset.toNat / 4096 + 1) + 1#32 =
        BitVec.ofNat 32 ((offset.toNat + m) / 4096 + 1 - offset.toNat / 4096 + 1) := by
      rw [← BitVec.ofNat_add]
      congr 1
      omega
    have hslot : offset / 4096#32 +
          BitVec.ofNat 32 ((offset.toNat + m) / 4096 + 1 - offset.toNat / 4096 + 1) =
        BitVec.ofNat 32 ((offset.toNat + m) / 4096 + 1) + 1#32 := by
      rw [div_block, ← BitVec.ofNat_add, ← BitVec.ofNat_add]
      congr 1
      omega
    rw [if_pos (by omega), hk, hslot, hdiv, hmod]
    rfl
  · -- inside a block: only the offset moves
    have hdiv : (offset.toNat + (m + 1)) / 4096 = (offset.toNat + m) / 4096 := by omega
    have hmod : (offset.toNat + (m + 1)) % 4096 = (offset.toNat + m) % 4096 + 1 := by omega
    rw [if_neg (by omega), hdiv, hmod]

/-- The condition of the loop: it goes on to the end of the request or of the file. -/
theorem readAt_guard_iff (img : FsImage) (inode : Word) (buf : Buffer) {filelength : Word}
    (hoff : offset.toNat ≤ filelength.toNat) {m : ℕ}
    (hm : m < 4294967296) (hle : m ≤ min length.toNat (filelength.toNat - offset.toNat)) :
    ((img.readAt inode offset buf m).i < length ∧
      offset + (img.readAt inode offset buf m).i < filelength) ↔
        m < min length.toNat (filelength.toNat - offset.toNat) := by
  have hlen := filelength.isLt
  have hi : (img.readAt inode offset buf m).i.toNat = m := toNat_ofNat_of_lt hm
  rw [BitVec.lt_def, BitVec.lt_def, BitVec.toNat_add, hi,
    Nat.mod_eq_of_lt (by omega : offset.toNat + m < 2 ^ 32)]
  omega

/-- From position `m` on, the loop runs to the end of the request or of the file. -/
theorem readLoop_readAt {filelength : Word} (hoff : offset.toNat ≤ filelength.toNat)
    {fuel m : ℕ} (hm : m ≤ min length.toNat (filelength.toNat - offset.toNat))
    (hfuel : length.toNat ≤ m + fuel) :
    img.readLoop inode offset length filelength fuel (img.readAt inode offset buf m) =
      img.readAt inode offset buf (min length.toNat (filelength.toNat - offset.toNat)) := by
  have hlen := filelength.isLt
  induction fuel generalizing m with
  | zero =>
    rw [readLoop]
    congr 1
    omega
  | succ fuel ih =>
    have hmlt : m < 4294967296 := by omega
    have hguard := readAt_guard_iff img inode buf hoff hmlt hm
    rw [readLoop]
    by_cases hlt : m < min length.toNat (filelength.toNat - offset.toNat)
    · rw [if_pos (hguard.mpr hlt), readStep_readAt hmlt]
      -- the next iteration has one byte less to copy
      exact ih (by omega) (by omega)
    · -- all bytes have been copied
      rw [if_neg fun h => hlt (hguard.mp h)]
      congr 1
      omega

/-- `read_data` past the end of a file reads nothing. -/
theorem readData_past_end (h : offset > img.fileLength inode) :
    img.readData inode offset buf length = (0#32, buf) := by
  rw [readData]
  exact if_pos h

/-- `read_data` returns -1 and writes nothing when the first block number is refused. -/
theorem readData_badBlock (h : ¬ offset > img.fileLength inode)
    (hbad : img.BadBlock inode offset) : img.readData inode offset buf length = (-1#32, buf) := by
  rw [readData, if_neg h]
  exact if_pos hbad

/-- Otherwise `read_data` copies the bytes of the file from `offset` on, up to the end of the
request or of the file, and returns their number. -/
theorem readData_eq (h : ¬ offset > img.fileLength inode) (hbad : ¬ img.BadBlock inode offset) :
    img.readData inode offset buf length =
      (BitVec.ofNat 32 (min length.toNat ((img.fileLength inode).toNat - offset.toNat)),
        buf.overwrite (fun j => img.fileByte inode (offset.toNat + j))
          (min length.toNat ((img.fileLength inode).toNat - offset.toNat))) := by
  have hoff : offset.toNat ≤ (img.fileLength inode).toNat := by
    rw [gt_iff_lt, BitVec.lt_def] at h
    omega
  set l : Word := if length > img.fileLength inode then img.fileLength inode else length with hl
  have hmin : min l.toNat ((img.fileLength inode).toNat - offset.toNat) =
      min length.toNat ((img.fileLength inode).toNat - offset.toNat) := min_clamp _ _ _
  rw [BadBlock] at hbad
  rw [readData, if_neg h]
  simp only [← hl]
  rw [if_neg hbad]
  by_cases hzero : l = 0#32
  · -- nothing is asked for, or the file is empty
    rw [if_pos hzero, ← hmin, hzero]
    simp
  · rw [if_neg hzero, readAt_zero, readLoop_readAt hoff (Nat.zero_le _) (by omega), hmin]
    rfl

end FsImage

end Ece391
