import Ece391Os.Lib.Paging
import Ece391Os.Kernel.State

/-!
# Address spaces

The page directories and page tables as `init_paging` sets them up. Every process has its own
directory: it maps the kernel at 4 MB and the three video pages, as all of them do, and at
0x08000000 the 4 MB page of the process.

* `pageDirectory` and `Procs.tableEntry` are the tables. After `init_paging` only the entry
  `page_table[p][VIDEO_MEM_PTE_INDEX]` is ever assigned, which is `Procs.pageTable`.
* `translate_program` says which physical addresses the program page has.
* `eq_cr3_of_translate` says that no address leads to the program page of another process.
* `Kernel.storeByte` is a store through the page directory in CR3.
-/

namespace Ece391

open I386

/-- The page tables that the directories refer to. -/
inductive Table
  | pageTable (p : Pid)
  | videoTable (p : Pid)

/-- `page_directory[process_index]` -/
def pageDirectory (p : Pid) (index : ℕ) : DirectoryEntry Table :=
  if index = 0 then { bits := .all, target := .table (.pageTable p) }
  else if index = 1 then
    { bits := { present := true, readWrite := false, userSupervisor := false }
      target := .page 0x400 }
  else if index = 32 then { bits := .all, target := .page (0x800 + p.val * 0x400) }
  else if index = 33 then { bits := .all, target := .table (.videoTable p) }
  else { bits := .none, target := .page 0 }

namespace Procs

/-- The entries of `page_table` and `video_table`. -/
def tableEntry (ps : Procs) : Table → ℕ → TableEntry
  | .pageTable p, index =>
    if index = 0xB8 then { bits := .all, physPageAddr := ps.pageTable p }
    else { bits := .none, physPageAddr := 0 }
  | .videoTable _, index =>
    if ∃ t : TermId, index = videoPage t then { bits := .all, physPageAddr := index }
    else { bits := .none, physPageAddr := 0 }

/-- The physical address of an access under the page directory in CR3. -/
def translate (ps : Procs) (access : Access) (va : Word) : Option ℕ :=
  I386.translate (pageDirectory ps.cr3) ps.tableEntry access va

end Procs

/-- The virtual addresses of the program page. -/
def ProgramAddr (va : Word) : Prop := 0x08000000 ≤ va.toNat ∧ va.toNat < 0x08400000

instance (va : Word) : Decidable (ProgramAddr va) := inferInstanceAs (Decidable (_ ∧ _))

/-- The physical addresses of the program page of process `p`. -/
def ProgramFrame (p : Pid) (pa : ℕ) : Prop :=
  0x800000 + 0x400000 * p.val ≤ pa ∧ pa < 0x800000 + 0x400000 * (p.val + 1)

instance (p : Pid) (pa : ℕ) : Decidable (ProgramFrame p pa) := inferInstanceAs (Decidable (_ ∧ _))

theorem programFrame_unique {p q : Pid} {pa : ℕ} (hp : ProgramFrame p pa)
    (hq : ProgramFrame q pa) : p = q := by
  unfold ProgramFrame at hp hq
  apply Fin.ext
  omega

section

variable {ps : Procs} {access : Access} {va : Word} {pa : ℕ} {q : Pid}

/-- The program page of a process is mapped for every access. -/
theorem translate_program (h : ProgramAddr va) :
    ps.translate access va = some (0x800000 + 0x400000 * ps.cr3.val + (va.toNat - 0x08000000)) := by
  unfold ProgramAddr at h
  have hindex : va.toNat / 0x400000 = 32 := by omega
  have hentry : pageDirectory ps.cr3 (va.toNat / 0x400000) =
      { bits := .all, target := .page (0x800 + ps.cr3.val * 0x400) } := by
    rw [hindex]
    rfl
  rw [Procs.translate, I386.translate_page (congrArg _ hentry), hentry]
  exact ⟨AccessBits.permits_all access, by omega⟩

/-- Outside the program page every mapped address lies below 8 MB. -/
theorem translate_lt (hvideo : ps.pageTable ps.cr3 < 0x800) (hva : ¬ ProgramAddr va)
    (h : ps.translate access va = some pa) : pa < 0x800000 := by
  unfold ProgramAddr at hva
  have hindex : va.toNat / 0x400000 ≠ 32 := by omega
  -- one case for each entry of the directory
  by_cases h0 : va.toNat / 0x400000 = 0
  · obtain ⟨-, hpage, rfl⟩ := (I386.translate_table (t := .pageTable ps.cr3) (by rw [h0]; rfl)).mp h
    unfold Procs.tableEntry at hpage ⊢
    dsimp only at hpage ⊢
    split_ifs at hpage ⊢
    · show ps.pageTable ps.cr3 * 0x1000 + _ < _
      omega
    · exact absurd hpage (AccessBits.not_permits_none access)
  by_cases h1 : va.toNat / 0x400000 = 1
  · have htarget : (pageDirectory ps.cr3 (va.toNat / 0x400000)).target = .page 0x400 := by
      rw [h1]
      rfl
    obtain ⟨-, rfl⟩ := (I386.translate_page htarget).mp h
    omega
  by_cases h33 : va.toNat / 0x400000 = 33
  · obtain ⟨-, hpage, rfl⟩ :=
      (I386.translate_table (t := .videoTable ps.cr3) (by rw [h33]; rfl)).mp h
    unfold Procs.tableEntry at hpage ⊢
    dsimp only at hpage ⊢
    split_ifs at hpage ⊢ with hvid
    · show va.toNat / 0x1000 % 0x400 * 0x1000 + _ < _
      omega
    · exact absurd hpage (AccessBits.not_permits_none access)
  have hentry : pageDirectory ps.cr3 (va.toNat / 0x400000) =
      { bits := .none, target := .page 0 } := by
    simp only [pageDirectory, h0, h1, h33, hindex, if_false]
  obtain ⟨hpermits, -⟩ := (I386.translate_page (congrArg _ hentry)).mp h
  rw [hentry] at hpermits
  exact absurd hpermits (AccessBits.not_permits_none access)

/-- No address leads to the program page of a process but the one whose directory is loaded. -/
theorem eq_cr3_of_translate (hvideo : ps.pageTable ps.cr3 < 0x800)
    (h : ps.translate access va = some pa) (hframe : ProgramFrame q pa) :
    q = ps.cr3 ∧ ProgramAddr va := by
  by_cases hva : ProgramAddr va
  · rw [translate_program hva, Option.some.injEq] at h
    refine ⟨programFrame_unique hframe ?_, hva⟩
    unfold ProgramFrame ProgramAddr at *
    omega
  · have hlow := translate_lt hvideo hva h
    unfold ProgramFrame at hframe
    omega

end

/-! ## Memory above 8 MB, and stores -/

/-- The process whose program page holds a physical address. -/
def frameOwner (pa : ℕ) : Option Pid :=
  if h : 0x800000 ≤ pa ∧ pa < 0x2000000 then some ⟨(pa - 0x800000) / 0x400000, by omega⟩ else none

theorem frameOwner_eq_some {p : Pid} {pa : ℕ} : frameOwner pa = some p ↔ ProgramFrame p pa := by
  have hp := p.isLt
  unfold frameOwner ProgramFrame
  split_ifs with h
  · rw [Option.some.injEq, Fin.ext_iff]
    show (pa - 0x800000) / 0x400000 = p.val ↔ _
    omega
  · apply iff_of_false (by simp)
    omega

/-- User memory by physical address: the six program pages. -/
def Procs.userByte (ps : Procs) (pa : ℕ) : Option Byte :=
  (frameOwner pa).map fun p => ps.progPage p ((pa - 0x800000) % 0x400000)

namespace Kernel

/-- A store to a physical address. Below 8 MB the model follows the pages the console shows. -/
def storePhys (k : Kernel) (pa : ℕ) (b : Byte) : Kernel :=
  match frameOwner pa with
  | some p =>
    { k with
      procs :=
        { k.procs with
          progPage := Function.update k.procs.progPage p
            (Function.update (k.procs.progPage p) ((pa - 0x800000) % 0x400000) b) } }
  | none =>
    { k with
      con :=
        { k.con with
          vram := Function.update k.con.vram (pa / 0x1000)
            (Function.update (k.con.vram (pa / 0x1000)) (pa % 0x1000) b) } }

/-- A store of one byte; `none` for a page fault, whose handler never returns. -/
def storeByte (k : Kernel) (user : Bool) (va : Word) (b : Byte) : Option Kernel :=
  (k.procs.translate { user, write := true } va).map fun pa => k.storePhys pa b

/-- A loop of the kernel that stores `n` bytes from the address `va` on. -/
def storeBytes (k : Kernel) (va : Word) (data : Buffer) : ℕ → Option Kernel
  | 0 => some k
  | n + 1 => (k.storeBytes va data n).bind fun k' =>
      k'.storeByte false (va + BitVec.ofNat 32 n) (data n)

/-- A load of one byte. -/
def loadByte (k : Kernel) (user : Bool) (va : Word) : Option Byte :=
  (k.procs.translate { user, write := false } va).bind k.procs.userByte

variable {k k' : Kernel} {user : Bool} {va : Word} {b : Byte} {data : Buffer} {n : ℕ}

/-- A program address is in the frame of the page in CR3. -/
theorem frameOwner_program (h : ProgramAddr va) (i : Pid) :
    frameOwner (0x800000 + 0x400000 * i.val + (va.toNat - 0x08000000)) = some i := by
  apply frameOwner_eq_some.mpr
  unfold ProgramAddr at h
  unfold ProgramFrame
  omega

/-- The offset of a program address in that frame. -/
theorem program_offset (h : ProgramAddr va) (i : Pid) :
    (0x800000 + 0x400000 * i.val + (va.toNat - 0x08000000) - 0x800000) % 0x400000 =
      va.toNat - 0x08000000 := by
  unfold ProgramAddr at h
  omega

/-- A load from the program page. -/
theorem loadByte_program (h : ProgramAddr va) :
    k.loadByte user va = some (k.procs.progPage k.procs.cr3 (va.toNat - 0x08000000)) := by
  rw [loadByte, translate_program h, Option.bind_some, Procs.userByte, frameOwner_program h,
    Option.map_some, program_offset h]

/-- A store to the program page changes that byte of the page of the process in CR3. -/
theorem storeByte_program (h : ProgramAddr va) :
    k.storeByte user va b = some
      { k with
        procs :=
          { k.procs with
            progPage := Function.update k.procs.progPage k.procs.cr3
              (Function.update (k.procs.progPage k.procs.cr3) (va.toNat - 0x08000000) b) } } := by
  rw [storeByte, translate_program h, Option.map_some, storePhys, frameOwner_program h]
  dsimp only
  rw [program_offset h]

/-- Any other store that does not fault leaves the process table and user memory alone. -/
theorem procs_storeByte_other (hvideo : k.procs.pageTable k.procs.cr3 < 0x800)
    (hva : ¬ ProgramAddr va) (h : k.storeByte user va b = some k') : k'.procs = k.procs := by
  obtain ⟨pa, hpa, rfl⟩ := Option.map_eq_some_iff.mp h
  have hlow := translate_lt hvideo hva hpa
  have howner : frameOwner pa = none := dif_neg (by omega)
  rw [storePhys, howner]

/-- A loop of stores that ends at or below 0x08400000 replaces a range of the page in CR3. -/
theorem storeBytes_program (start : ℕ) (hva : va.toNat = 0x08000000 + start)
    (hend : start + n ≤ 0x400000) :
    k.storeBytes va data n = some
      { k with
        procs :=
          { k.procs with
            progPage := Function.update k.procs.progPage k.procs.cr3
              ((k.procs.progPage k.procs.cr3).splice start data n) } } := by
  induction n with
  | zero =>
    rw [storeBytes, Buffer.splice_zero, Function.update_eq_self]
  | succ n ih =>
    have hoff : (va + BitVec.ofNat 32 n).toNat = 0x08000000 + (start + n) := by
      rw [BitVec.toNat_add, BitVec.toNat_ofNat, hva]
      omega
    have haddr : ProgramAddr (va + BitVec.ofNat 32 n) := by
      unfold ProgramAddr
      omega
    rw [storeBytes, ih (by omega), Option.bind_some, storeByte_program haddr]
    simp only [Function.update_self, Function.update_idem, hoff, Nat.add_sub_cancel_left,
      Buffer.splice_succ]

end Kernel

end Ece391
