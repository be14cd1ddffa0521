import Ece391Os.Kernel.Paging
import Ece391Os.Lib.BitField
import Ece391Os.Lib.Transition
import Ece391Os.Process.Boot

/-!
# The page tables in memory

`paging.c` as it writes the bit fields of `paging.h`, against the page walk of the processor, which
reads the 32-bit words behind them and its control registers.

* `PagingLayout` is where the linker has put the 18 arrays, each on a page of its own.
* `initPaging` are the loops of `init_paging`, with `set_pse`, `flush_tlb` and `set_cr0`.
* `HoldsTables` relates words and registers to the tables of `Procs`; the bits that the processor
  sets when it uses an entry are free.
* `HoldsTables.walk_eq`: the walk finds the physical address that `Procs.translate` says.
* `holdsTables_initPaging` and `holdsTables_run`: that is so after `init_paging`, and stays so while
  the kernel loads directories and maps video pages.
* `walk_isolated`: no access of a process gets to the program page of another.
-/

namespace Ece391

open I386

/-- The arrays of `paging.h`. -/
inductive PagingArray
  | pageDirectory (p : Pid)
  | pageTable (p : Pid)
  | videoTable (p : Pid)
  deriving DecidableEq

/-- The arrays are aligned to pages. -/
structure PagingLayout where
  frame : PagingArray → BitVec 20
  injective : Function.Injective frame

/-- `page_directory_entry` and `page_table_entry` -/
abbrev PageEntry := Word

namespace PageEntry

abbrev present : BitField 32 := { offset := 0, width := 1 }
abbrev readWrite : BitField 32 := { offset := 1, width := 1 }
abbrev userSupervisor : BitField 32 := { offset := 2, width := 1 }
abbrev accessed : BitField 32 := { offset := 5, width := 1 }
abbrev dirty : BitField 32 := { offset := 6, width := 1 }
abbrev pageSize : BitField 32 := { offset := 7, width := 1 }
abbrev global : BitField 32 := { offset := 8, width := 1 }
/-- `page_table_addr` in a directory, `phys_page_addr` in a table. -/
abbrev addr : BitField 32 := { offset := 12, width := 20 }

/-- The entry of the kernel's page. -/
def kernel (e : PageEntry) : PageEntry :=
  let e := present.set 1#1 e
  let e := pageSize.set 1#1 e
  let e := global.set 1#1 e
  addr.set 0x400#20 e

/-- The entry of the program page of a process. -/
def program (p : Pid) (e : PageEntry) : PageEntry :=
  let e := present.set 1#1 e
  let e := pageSize.set 1#1 e
  let e := readWrite.set 1#1 e
  let e := userSupervisor.set 1#1 e
  addr.set (BitVec.ofNat 20 (0x800 + p.val * 0x400)) e

/-- The entry of a page table, or of a page. -/
def shared (frame : BitVec 20) (e : PageEntry) : PageEntry :=
  let e := present.set 1#1 e
  let e := readWrite.set 1#1 e
  let e := userSupervisor.set 1#1 e
  addr.set frame e

end PageEntry

/-- An assignment to an entry of an array. -/
def PagingLayout.assign (L : PagingLayout) (a : PagingArray) (index : ℕ)
    (f : PageEntry → PageEntry) (phys : Frames) : Frames :=
  Function.update phys (L.frame a)
    (Function.update (phys (L.frame a)) index (f (phys (L.frame a) index)))

/-- The first loop of `init_paging` for one process, up to `index`. -/
def clearTables (L : PagingLayout) (p : Pid) : ℕ → Frames → Frames
  | 0, phys => phys
  | index + 1, phys =>
    let phys := clearTables L p index phys
    let phys := L.assign (.pageDirectory p) index (fun _ => 0#32) phys
    L.assign (.pageTable p) index (fun _ => 0#32) phys

/-- The last loop for one process, up to `index`. -/
def mapVideoPages (L : PagingLayout) (p : Pid) : ℕ → Frames → Frames
  | 0, phys => phys
  | index + 1, phys =>
    let phys := mapVideoPages L p index phys
    L.assign (.videoTable p) (0xB8 + 2 * index)
      (PageEntry.shared (BitVec.ofNat 20 (0xB8 + 2 * index))) phys

/-- The second loop of `init_paging` for one process. -/
def mapPages (L : PagingLayout) (p : Pid) (phys : Frames) : Frames :=
  let phys := L.assign (.pageDirectory p) 1 PageEntry.kernel phys
  let phys := L.assign (.pageDirectory p) 32 (PageEntry.program p) phys
  let phys := L.assign (.pageDirectory p) 0 (PageEntry.shared (L.frame (.pageTable p))) phys
  let phys := L.assign (.pageDirectory p) 33 (PageEntry.shared (L.frame (.videoTable p))) phys
  let phys := L.assign (.pageTable p) 0xB8
    (PageEntry.shared
      (if p.val < 3 then BitVec.ofNat 20 (0xB8 + 2 * p.val) else BitVec.ofNat 20 0xB8)) phys
  mapVideoPages L p 3 phys

/-- Memory and the paging unit. -/
structure PagingState where
  phys : Frames
  mmu : Mmu

/-- `flush_tlb`. The directory starts at its frame. -/
def flushTlb (L : PagingLayout) (p : Pid) (s : PagingState) : PagingState :=
  let pdPtr : Word := L.frame (.pageDirectory p) ++ 0#12
  { s with
    mmu :=
      { s.mmu with cr3 := (s.mmu.cr3 &&& 0xFFF#32) + (pdPtr &&& 0xFFFFF000#32) } }

/-- `set_pse` -/
def setPse (s : PagingState) : PagingState :=
  { s with mmu := { s.mmu with cr4 := s.mmu.cr4 ||| 0x10#32 } }

/-- `set_cr0` -/
def setCr0 (s : PagingState) : PagingState :=
  { s with mmu := { s.mmu with cr0 := s.mmu.cr0 ||| 0x80000000#32 } }

/-- `init_paging` -/
def initPaging (L : PagingLayout) (s : PagingState) : PagingState :=
  let phys := (List.finRange 6).foldl (fun phys p => clearTables L p 1024 phys) s.phys
  let phys := (List.finRange 6).foldl (fun phys p => mapPages L p phys) phys
  setCr0 (flushTlb L 0 (setPse { s with phys }))

/-! ## What the loops leave -/

/-- The process whose array it is. -/
def PagingArray.owner : PagingArray → Pid
  | pageDirectory p => p
  | pageTable p => p
  | videoTable p => p

/-- The first loop assigns to the array. -/
def PagingArray.Cleared : PagingArray → Prop
  | pageDirectory _ => True
  | pageTable _ => True
  | videoTable _ => False

instance (a : PagingArray) : Decidable a.Cleared := by
  cases a <;> unfold PagingArray.Cleared <;> infer_instance

/-- What the second loop does to an entry. -/
def PagingLayout.mapEntry (L : PagingLayout) : PagingArray → ℕ → PageEntry → PageEntry
  | .pageDirectory p, index =>
    if index = 0 then PageEntry.shared (L.frame (.pageTable p))
    else if index = 1 then PageEntry.kernel
    else if index = 32 then PageEntry.program p
    else if index = 33 then PageEntry.shared (L.frame (.videoTable p))
    else id
  | .pageTable p, index =>
    if index = 0xB8 then
      PageEntry.shared
        (if p.val < 3 then BitVec.ofNat 20 (0xB8 + 2 * p.val) else BitVec.ofNat 20 0xB8)
    else id
  | .videoTable _, index =>
    if ∃ t : TermId, index = videoPage t then PageEntry.shared (BitVec.ofNat 20 index) else id

section

variable {L : PagingLayout} {a b : PagingArray} {p q : Pid} {i j n : ℕ} {phys : Frames}
  {f : PageEntry → PageEntry}

theorem assign_apply : L.assign a i f phys (L.frame b) j =
    if b = a ∧ j = i then f (phys (L.frame b) j) else phys (L.frame b) j := by
  unfold PagingLayout.assign
  by_cases harray : b = a
  · subst harray
    rw [Function.update_self]
    by_cases hindex : j = i
    · subst hindex
      rw [Function.update_self, if_pos ⟨rfl, rfl⟩]
    · rw [Function.update_of_ne hindex, if_neg fun h => hindex h.2]
  · rw [Function.update_of_ne fun h => harray (L.injective h), if_neg fun h => harray h.1]

theorem clearTables_apply : clearTables L p n phys (L.frame b) j =
    if b.owner = p ∧ b.Cleared ∧ j < n then 0#32 else phys (L.frame b) j := by
  induction n with
  | zero => rw [clearTables, if_neg fun h => absurd h.2.2 (Nat.not_lt_zero j)]
  | succ n ih =>
    have hrange : j < n + 1 ↔ j = n ∨ j < n := by omega
    rw [clearTables, assign_apply, assign_apply, ih]
    cases b with
    | pageDirectory r =>
      by_cases hr : r = p <;> by_cases hj : j = n <;>
        simp [PagingArray.owner, PagingArray.Cleared, hr, hj, hrange]
    | pageTable r =>
      by_cases hr : r = p <;> by_cases hj : j = n <;>
        simp [PagingArray.owner, PagingArray.Cleared, hr, hj, hrange]
    | videoTable r => simp [PagingArray.Cleared]

theorem mapVideoPages_apply : mapVideoPages L p n phys (L.frame b) j =
    if b = .videoTable p ∧ ∃ i < n, j = 0xB8 + 2 * i then
      PageEntry.shared (BitVec.ofNat 20 j) (phys (L.frame b) j)
    else phys (L.frame b) j := by
  induction n with
  | zero => rw [mapVideoPages, if_neg fun ⟨_, _, hi, _⟩ => absurd hi (Nat.not_lt_zero _)]
  | succ n ih =>
    rw [mapVideoPages, assign_apply, ih]
    by_cases hlast : b = .videoTable p ∧ j = 0xB8 + 2 * n
    · have hbefore : ¬ (b = .videoTable p ∧ ∃ i < n, j = 0xB8 + 2 * i) := by
        rintro ⟨-, i, hi, hj⟩
        omega
      rw [if_pos hlast, if_neg hbefore, if_pos ⟨hlast.1, n, n.lt_succ_self, hlast.2⟩, hlast.2]
    · have hrange : (b = .videoTable p ∧ ∃ i < n + 1, j = 0xB8 + 2 * i) ↔
          b = .videoTable p ∧ ∃ i < n, j = 0xB8 + 2 * i := by
        constructor
        · rintro ⟨hb, i, hi, hj⟩
          refine ⟨hb, i, lt_of_le_of_ne (Nat.le_of_lt_succ hi) ?_, hj⟩
          rintro rfl
          exact hlast ⟨hb, hj⟩
        · rintro ⟨hb, i, hi, hj⟩
          exact ⟨hb, i, Nat.lt_succ_of_lt hi, hj⟩
      rw [if_neg hlast, if_congr hrange rfl rfl]

theorem mapPages_apply : mapPages L p phys (L.frame b) j =
    if b.owner = p then L.mapEntry b j (phys (L.frame b) j) else phys (L.frame b) j := by
  rw [mapPages, mapVideoPages_apply, assign_apply, assign_apply, assign_apply, assign_apply,
    assign_apply]
  cases b with
  | pageDirectory r =>
    by_cases hr : r = p
    · subst hr
      simp only [PagingArray.owner, PagingLayout.mapEntry, true_and, reduceCtorEq, false_and,
        if_false, if_true]
      by_cases h0 : j = 0
      · subst h0
        rfl
      by_cases h1 : j = 1
      · subst h1
        rfl
      by_cases h32 : j = 32
      · subst h32
        rfl
      by_cases h33 : j = 33
      · subst h33
        rfl
      simp only [h0, h1, h32, h33, if_false, id]
    · simp [PagingArray.owner, hr]
  | pageTable r =>
    by_cases hr : r = p
    · subst hr
      by_cases hj : j = 0xB8 <;> simp [PagingArray.owner, PagingLayout.mapEntry, hj]
    · simp [PagingArray.owner, hr]
  | videoTable r =>
    by_cases hr : r = p
    · subst hr
      have hpages : (∃ i < 3, j = 0xB8 + 2 * i) ↔ ∃ t : TermId, j = videoPage t :=
        ⟨fun ⟨i, hi, hj⟩ => ⟨⟨i, hi⟩, hj⟩, fun ⟨t, ht⟩ => ⟨t.val, t.isLt, ht⟩⟩
      simp only [PagingArray.owner, PagingLayout.mapEntry, reduceCtorEq, false_and, if_false,
        true_and, if_true, hpages]
      split_ifs <;> rfl
    · simp [PagingArray.owner, hr]

/-- A fold over the processes in which one process has its share of every read. -/
theorem foldl_owner (step : Frames → Pid → Frames) (read : Frames → Word) (g : Word → Word)
    (hown : ∀ phys, read (step phys p) = g (read phys))
    (hother : ∀ phys q, q ≠ p → read (step phys q) = read phys)
    {l : List Pid} (hnodup : l.Nodup) :
    read (l.foldl step phys) = if p ∈ l then g (read phys) else read phys := by
  induction l generalizing phys with
  | nil => rfl
  | cons q l ih =>
    rw [List.nodup_cons] at hnodup
    rw [List.foldl_cons, ih hnodup.2]
    by_cases hq : q = p
    · subst hq
      rw [if_neg hnodup.1, if_pos List.mem_cons_self, hown]
    · rw [hother _ _ hq]
      exact if_congr (by simp [Ne.symm hq]) rfl rfl

/-- The words of the arrays behind `init_paging`. -/
theorem initPaging_apply (s : PagingState) (hj : j < 1024) :
    (initPaging L s).phys (L.frame b) j =
      L.mapEntry b j (if b.Cleared then 0#32 else s.phys (L.frame b) j) := by
  have hnodup : (List.finRange 6).Nodup := List.nodup_finRange 6
  have hread : (initPaging L s).phys (L.frame b) j =
      L.mapEntry b j (((List.finRange 6).foldl (fun phys p => clearTables L p 1024 phys) s.phys)
        (L.frame b) j) := by
    refine (foldl_owner (p := b.owner) (fun phys p => mapPages L p phys)
      (fun phys => phys (L.frame b) j) (L.mapEntry b j) ?_ ?_ hnodup).trans
        (if_pos (List.mem_finRange _))
    · intro phys
      rw [mapPages_apply, if_pos rfl]
    · intro phys q hq
      rw [mapPages_apply, if_neg hq.symm]
  rw [hread]
  refine congrArg _ ((foldl_owner (p := b.owner) (fun phys p => clearTables L p 1024 phys)
    (fun phys => phys (L.frame b) j) (fun w => if b.Cleared then 0#32 else w) ?_ ?_ hnodup).trans
      (if_pos (List.mem_finRange _)))
  · intro phys
    rw [clearTables_apply]
    exact if_congr (by simp [hj]) rfl rfl
  · intro phys q hq
    rw [clearTables_apply, if_neg fun h => hq h.1.symm]

end

/-! ## The tables of the model -/

/-- The array behind a table of the model. -/
def Table.array : Table → PagingArray
  | .pageTable p => .pageTable p
  | .videoTable p => .videoTable p

/-- Words and registers are the tables of the model, with the directory of `cr3` loaded. -/
structure HoldsTables (L : PagingLayout) (s : PagingState) (ps : Procs) : Prop where
  enabled : s.mmu.Enabled
  cr3 : s.mmu.cr3.extractLsb' 12 20 = L.frame (.pageDirectory ps.cr3)
  directory : ∀ p, ∀ i < 1024, DirectoryWord (fun t : Table => L.frame t.array)
    (s.phys (L.frame (.pageDirectory p)) i) (pageDirectory p i)
  table : ∀ t : Table, ∀ i < 1024, TableWord (s.phys (L.frame t.array) i) (ps.tableEntry t i)

section

variable {L : PagingLayout} {s : PagingState} {ps : Procs} {p : Pid} {i : ℕ} {e : PageEntry}
  {frame : BitVec 20}

/-- The walk of the processor finds the physical addresses of the model. -/
theorem HoldsTables.walk_eq (h : HoldsTables L s ps) (access : Access) (va : Word) :
    s.mmu.walk s.phys access va = ps.translate access va := by
  refine Mmu.walk_eq h.enabled ?_ h.table
  rw [h.cr3]
  exact h.directory ps.cr3

/-- The access bits of an entry are three of its fields. -/
theorem ofEntry_eq (e : PageEntry) : AccessBits.ofEntry e =
    { present := (PageEntry.present.get e).getLsbD 0
      readWrite := (PageEntry.readWrite.get e).getLsbD 0
      userSupervisor := (PageEntry.userSupervisor.get e).getLsbD 0 } := by
  simp [AccessBits.ofEntry, BitField.get]

theorem getLsbD_pageSize (e : PageEntry) : e.getLsbD 7 = (PageEntry.pageSize.get e).getLsbD 0 := by
  simp [BitField.get]

theorem ofEntry_shared : AccessBits.ofEntry (PageEntry.shared frame e) = .all := by
  rw [ofEntry_eq]
  simp (disch := decide) only [PageEntry.shared, BitField.get_set, BitField.get_set_of_disjoint]
  rfl

theorem addr_shared : (PageEntry.shared frame e).extractLsb' 12 20 = frame := by
  show PageEntry.addr.get (PageEntry.shared frame e) = frame
  simp (disch := decide) only [PageEntry.shared, BitField.get_set]

theorem pageSize_shared : (PageEntry.shared frame e).getLsbD 7 = e.getLsbD 7 := by
  rw [getLsbD_pageSize, getLsbD_pageSize]
  simp (disch := decide) only [PageEntry.shared, BitField.get_set_of_disjoint]

/-- A 4 MB page. -/
theorem pageSize_program : (PageEntry.program p e).getLsbD 7 = true := by
  rw [getLsbD_pageSize]
  simp (disch := decide) only [PageEntry.program, BitField.get_set, BitField.get_set_of_disjoint]
  rfl

theorem ofEntry_program : AccessBits.ofEntry (PageEntry.program p e) = .all := by
  rw [ofEntry_eq]
  simp (disch := decide) only [PageEntry.program, BitField.get_set, BitField.get_set_of_disjoint]
  rfl

/-- The directories behind `init_paging`. -/
theorem directoryWord_mapEntry (p : Pid) (i : ℕ) : DirectoryWord (fun t : Table => L.frame t.array)
    (L.mapEntry (.pageDirectory p) i 0#32) (pageDirectory p i) := by
  have hzero : (0#32 : Word).getLsbD 7 = false := by decide
  simp only [PagingLayout.mapEntry, pageDirectory]
  by_cases h0 : i = 0
  · rw [if_pos h0, if_pos h0]
    exact { bits := ofEntry_shared, target := fun _ => ⟨pageSize_shared.trans hzero, addr_shared⟩ }
  rw [if_neg h0, if_neg h0]
  by_cases h1 : i = 1
  · rw [if_pos h1, if_pos h1]
    have hlarge : (PageEntry.kernel 0#32).getLsbD 7 = true := by decide
    have haddr : ((PageEntry.kernel 0#32).extractLsb' 22 10).toNat = 0x400 / 0x400 := by decide
    exact { bits := rfl, target := fun _ => ⟨hlarge, haddr⟩ }
  rw [if_neg h1, if_neg h1]
  by_cases h32 : i = 32
  · rw [if_pos h32, if_pos h32]
    have haddr : ((PageEntry.program p 0#32).extractLsb' 22 10).toNat =
        (0x800 + p.val * 0x400) / 0x400 := by
      revert p
      decide
    exact { bits := ofEntry_program, target := fun _ => ⟨pageSize_program, haddr⟩ }
  rw [if_neg h32, if_neg h32]
  by_cases h33 : i = 33
  · rw [if_pos h33, if_pos h33]
    exact { bits := ofEntry_shared, target := fun _ => ⟨pageSize_shared.trans hzero, addr_shared⟩ }
  · rw [if_neg h33, if_neg h33]
    exact { bits := rfl, target := fun h => absurd h Bool.false_ne_true }

/-- An entry of a page table. -/
theorem tableWord_shared (haddr : frame.toNat = i) :
    TableWord (PageEntry.shared frame e) { bits := .all, physPageAddr := i } :=
  { bits := ofEntry_shared, addr := fun _ => (congrArg BitVec.toNat addr_shared).trans haddr }

theorem tableWord_zero : TableWord 0#32 { bits := .none, physPageAddr := 0 } :=
  { bits := rfl, addr := fun h => absurd h Bool.false_ne_true }

/-- The tables behind `init_paging`. -/
theorem tableWord_mapEntry (ram : BootRam) (t : Table) (i : ℕ) :
    TableWord (L.mapEntry t.array i 0#32) ((bootProcs ram).tableEntry t i) := by
  cases t with
  | pageTable p =>
    simp only [Table.array, PagingLayout.mapEntry, Procs.tableEntry, bootProcs]
    by_cases hindex : i = 0xB8
    · rw [if_pos hindex, if_pos hindex]
      apply tableWord_shared
      revert p
      decide
    · rw [if_neg hindex, if_neg hindex]
      exact tableWord_zero
  | videoTable p =>
    simp only [Table.array, PagingLayout.mapEntry, Procs.tableEntry]
    by_cases hindex : ∃ t : TermId, i = videoPage t
    · rw [if_pos hindex, if_pos hindex]
      apply tableWord_shared
      obtain ⟨t, rfl⟩ := hindex
      revert t
      decide
    · rw [if_neg hindex, if_neg hindex]
      exact tableWord_zero

/-- `flush_tlb` leaves the frame of the directory in CR3. -/
theorem cr3_flushTlb (L : PagingLayout) (p : Pid) (s : PagingState) :
    (flushTlb L p s).mmu.cr3.extractLsb' 12 20 = L.frame (.pageDirectory p) := by
  show ((s.mmu.cr3 &&& 0xFFF#32) +
    ((L.frame (.pageDirectory p) ++ 0#12) &&& 0xFFFFF000#32)).extractLsb' 12 20 = _
  generalize s.mmu.cr3 = old
  generalize L.frame (.pageDirectory p) = new
  -- the sum has no carry
  have hdisjoint : (old &&& 0xFFF#32) &&& ((new ++ 0#12) &&& 0xFFFFF000#32) = 0#32 := by
    rw [BitVec.and_comm (new ++ 0#12), ← BitVec.and_assoc, BitVec.and_assoc old]
    show old &&& 0#32 &&& _ = _
    rw [BitVec.and_zero, BitVec.zero_and]
  rw [BitVec.add_eq_or_of_and_eq_zero _ _ hdisjoint, BitVec.extractLsb'_or, BitVec.extractLsb'_and,
    BitVec.extractLsb'_and]
  have hold : (0xFFF#32 : Word).extractLsb' 12 20 = 0#20 := by decide
  have hnew : (0xFFFFF000#32 : Word).extractLsb' 12 20 = BitVec.allOnes 20 := by decide
  rw [hold, hnew, BitVec.and_zero, BitVec.zero_or, BitVec.and_allOnes,
    BitVec.extractLsb'_append_eq_left]

/-- After `init_paging` the processor finds the tables of the model. -/
theorem holdsTables_initPaging
    (hvideo : ∀ p, ∀ i < 1024, s.phys (L.frame (.videoTable p)) i = 0#32)
    (hwp : s.mmu.cr0.getLsbD 16 = false) (ram : BootRam) :
    HoldsTables L (initPaging L s) (bootProcs ram) := by
  have hword : ∀ b : PagingArray, ∀ i < 1024,
      (initPaging L s).phys (L.frame b) i = L.mapEntry b i 0#32 := by
    intro b i hi
    rw [initPaging_apply s hi]
    cases b with
    | pageDirectory p => rw [if_pos (by trivial)]
    | pageTable p => rw [if_pos (by trivial)]
    | videoTable p => rw [hvideo p i hi, ite_self]
  refine { enabled := ⟨?_, ?_, ?_⟩, cr3 := cr3_flushTlb L 0 _, directory := ?_, table := ?_ }
  · show (s.mmu.cr0 ||| 0x80000000#32).getLsbD 31 = true
    simp
  · show (s.mmu.cr4 ||| 0x10#32).getLsbD 4 = true
    simp
  · show (s.mmu.cr0 ||| 0x80000000#32).getLsbD 16 = false
    rw [BitVec.getLsbD_or, hwp]
    rfl
  · intro p i hi
    rw [hword _ i hi]
    exact directoryWord_mapEntry p i
  · intro t i hi
    rw [hword _ i hi]
    exact tableWord_mapEntry ram t i

/-! ## The tables while the kernel runs -/

/-- What changes tables and registers after `init_paging`: `flush_tlb`, the assignment of `execute`
to `phys_page_addr`, and the processor, which sets bits in an entry that it uses. -/
inductive PagingOp
  | flushTlb (p : Pid)
  | mapVideo (p : Pid) (t : TermId)
  | used (a : PagingArray) (index : ℕ) (written : Bool)

/-- The change in memory and in the registers. -/
def PagingOp.run (L : PagingLayout) (s : PagingState) : PagingOp → PagingState
  | flushTlb p => Ece391.flushTlb L p s
  | mapVideo p t =>
    { s with
      phys := L.assign (.pageTable p) 0xB8
        (PageEntry.addr.set (BitVec.ofNat 20 (0xB8 + 2 * t.val))) s.phys }
  | used a index written =>
    { s with
      phys := L.assign a index
        (fun e =>
          let e := PageEntry.accessed.set 1#1 e
          if written then PageEntry.dirty.set 1#1 e else e)
        s.phys }

/-- The change in the model. -/
def PagingOp.apply (ps : Procs) : PagingOp → Procs
  | flushTlb p => { ps with cr3 := p }
  | mapVideo p t => { ps with pageTable := Function.update ps.pageTable p (videoPage t) }
  | used _ _ _ => ps

theorem holdsTables_flushTlb (h : HoldsTables L s ps) (p : Pid) :
    HoldsTables L (flushTlb L p s) { ps with cr3 := p } where
  enabled := ⟨h.enabled.paging, h.enabled.pageSize, h.enabled.writeProtect⟩
  cr3 := cr3_flushTlb L p s
  directory := h.directory
  table := h.table

theorem holdsTables_mapVideo (h : HoldsTables L s ps) (p : Pid) (t : TermId) :
    HoldsTables L ((PagingOp.mapVideo p t).run L s)
      { ps with pageTable := Function.update ps.pageTable p (videoPage t) } where
  enabled := h.enabled
  cr3 := h.cr3
  directory := by
    intro q i hi
    have hother : ((PagingOp.mapVideo p t).run L s).phys (L.frame (.pageDirectory q)) i =
        s.phys (L.frame (.pageDirectory q)) i := assign_apply.trans (if_neg fun h => nomatch h.1)
    rw [hother]
    exact h.directory q i hi
  table := by
    intro table i hi
    have hold := h.table table i hi
    simp only [PagingOp.run, assign_apply]
    by_cases hentry : table.array = .pageTable p ∧ i = 0xB8
    · rw [if_pos hentry]
      obtain ⟨harray, rfl⟩ := hentry
      obtain rfl : table = .pageTable p := by
        cases table <;> cases harray
        rfl
      have haddr : (BitVec.ofNat 20 (0xB8 + 2 * t.val)).toNat = videoPage t := by
        revert t
        decide
      refine { bits := ?_, addr := fun _ => ?_ }
      · have hbits := hold.bits
        rw [ofEntry_eq] at hbits ⊢
        simp (disch := decide) only [BitField.get_set_of_disjoint]
        exact hbits
      · show (PageEntry.addr.get _).toNat = _
        simp (disch := decide) only [BitField.get_set]
        rw [haddr, Procs.tableEntry, if_pos rfl]
        exact (Function.update_self p (videoPage t) ps.pageTable).symm
    · rw [if_neg hentry]
      have hsame : Procs.tableEntry
          { ps with pageTable := Function.update ps.pageTable p (videoPage t) } table i =
            ps.tableEntry table i := by
        cases table with
        | pageTable q =>
          by_cases hq : q = p
          · subst hq
            have hindex : i ≠ 0xB8 := fun h => hentry ⟨rfl, h⟩
            rw [Procs.tableEntry, Procs.tableEntry, if_neg hindex, if_neg hindex]
          · simp only [Procs.tableEntry, Function.update_of_ne hq]
        | videoTable q => rfl
      rw [hsame]
      exact hold

theorem holdsTables_used (h : HoldsTables L s ps) (a : PagingArray) (index : ℕ) (written : Bool) :
    HoldsTables L ((PagingOp.used a index written).run L s) ps := by
  have hkept : ∀ b i, AccessBits.ofEntry (((PagingOp.used a index written).run L s).phys
        (L.frame b) i) = AccessBits.ofEntry (s.phys (L.frame b) i) ∧
      (((PagingOp.used a index written).run L s).phys (L.frame b) i).getLsbD 7 =
        (s.phys (L.frame b) i).getLsbD 7 ∧
      (((PagingOp.used a index written).run L s).phys (L.frame b) i).extractLsb' 12 20 =
        (s.phys (L.frame b) i).extractLsb' 12 20 := by
    intro b i
    simp only [PagingOp.run, assign_apply]
    by_cases hentry : b = a ∧ i = index
    · rw [if_pos hentry, ofEntry_eq, ofEntry_eq, getLsbD_pageSize, getLsbD_pageSize]
      show _ ∧ _ ∧ PageEntry.addr.get _ = PageEntry.addr.get _
      cases written <;>
        simp (disch := decide) only [if_true, if_false, Bool.false_eq_true,
          BitField.get_set_of_disjoint, and_self]
    · rw [if_neg hentry]
      exact ⟨rfl, rfl, rfl⟩
  refine { enabled := h.enabled, cr3 := h.cr3, directory := ?_, table := ?_ }
  · intro p i hi
    obtain ⟨hbits, hsize, haddr⟩ := hkept (.pageDirectory p) i
    exact (h.directory p i hi).congr hbits hsize haddr
  · intro t i hi
    obtain ⟨hbits, -, haddr⟩ := hkept t.array i
    exact (h.table t i hi).congr hbits haddr

/-- The tables are those of the model at all times. -/
theorem holdsTables_run (h : HoldsTables L s ps) (ops : List PagingOp) :
    HoldsTables L (ops.foldl (PagingOp.run L) s) (ops.foldl PagingOp.apply ps) := by
  induction ops generalizing s ps with
  | nil => exact h
  | cons op ops ih =>
    apply ih
    cases op with
    | flushTlb p => exact holdsTables_flushTlb h p
    | mapVideo p t => exact holdsTables_mapVideo h p t
    | used a index written => exact holdsTables_used h a index written

/-- From `init_paging` on the processor finds the physical addresses of the model. -/
theorem walk_initPaging (hvideo : ∀ p, ∀ i < 1024, s.phys (L.frame (.videoTable p)) i = 0#32)
    (hwp : s.mmu.cr0.getLsbD 16 = false) (ram : BootRam) (ops : List PagingOp) (access : Access)
    (va : Word) :
    (ops.foldl (PagingOp.run L) (initPaging L s)).mmu.walk
        (ops.foldl (PagingOp.run L) (initPaging L s)).phys access va =
      (ops.foldl PagingOp.apply (bootProcs ram)).translate access va :=
  (holdsTables_run (holdsTables_initPaging hvideo hwp ram) ops).walk_eq access va

/-- The video pages are below 8 MB. -/
theorem pageTable_apply_lt (ram : BootRam) (ops : List PagingOp) (p : Pid) :
    (ops.foldl PagingOp.apply (bootProcs ram)).pageTable p < 0x800 := by
  have hboot : ∀ q, (bootProcs ram).pageTable q < 0x800 := by
    intro q
    show (if q.val < 3 then 0xB8 + 2 * q.val else 0xB8) < 0x800
    split_ifs <;> omega
  generalize bootProcs ram = ps at hboot ⊢
  induction ops generalizing ps with
  | nil => exact hboot p
  | cons op ops ih =>
    apply ih
    cases op with
    | flushTlb q => exact hboot
    | mapVideo q t =>
      intro r
      have ht := t.isLt
      show Function.update ps.pageTable q (videoPage t) r < 0x800
      by_cases hr : r = q
      · subst hr
        rw [Function.update_self, videoPage]
        omega
      · rw [Function.update_of_ne hr]
        exact hboot r
    | used a index written => exact hboot

/-- No access gets to the program page of another process than the one whose directory was loaded
last, whatever the address and the privilege level. -/
theorem walk_isolated (hvideo : ∀ p, ∀ i < 1024, s.phys (L.frame (.videoTable p)) i = 0#32)
    (hwp : s.mmu.cr0.getLsbD 16 = false) (ram : BootRam) (ops : List PagingOp) {access : Access}
    {va : Word} {pa : ℕ} {q : Pid} (hframe : ProgramFrame q pa)
    (hwalk : (ops.foldl (PagingOp.run L) (initPaging L s)).mmu.walk
      (ops.foldl (PagingOp.run L) (initPaging L s)).phys access va = some pa) :
    q = (ops.foldl PagingOp.apply (bootProcs ram)).cr3 ∧ ProgramAddr va := by
  rw [(holdsTables_run (holdsTables_initPaging hvideo hwp ram) ops).walk_eq] at hwalk
  exact eq_cr3_of_translate (pageTable_apply_lt ram ops _) hwalk hframe

end

/-! ## A layout -/

/-- The arrays one after the other, as in the kernel's image. -/
def sampleLayout : PagingLayout where
  frame
    | .pageDirectory p => BitVec.ofNat 20 (0x410 + p.val)
    | .pageTable p => BitVec.ofNat 20 (0x420 + p.val)
    | .videoTable p => BitVec.ofNat 20 (0x430 + p.val)
  injective := by
    have hpid : ∀ m ∈ [0x410, 0x420, 0x430], ∀ p q : Pid,
        BitVec.ofNat 20 (m + p.val) = BitVec.ofNat 20 (m + q.val) → p = q := by decide
    have hapart : ∀ m ∈ [0x410, 0x420, 0x430], ∀ n ∈ [0x410, 0x420, 0x430], ∀ p q : Pid,
        BitVec.ofNat 20 (m + p.val) = BitVec.ofNat 20 (n + q.val) → m = n := by decide
    intro a b h
    cases a <;> cases b
    case pageDirectory.pageDirectory => exact congrArg _ (hpid _ (by decide) _ _ h)
    case pageTable.pageTable => exact congrArg _ (hpid _ (by decide) _ _ h)
    case videoTable.videoTable => exact congrArg _ (hpid _ (by decide) _ _ h)
    all_goals exact absurd (hapart _ (by decide) _ (by decide) _ _ h) (by decide)

/-- Memory and registers with zeros. -/
def zeroPaging : PagingState where
  phys := fun _ _ => 0#32
  mmu := { cr0 := 0#32, cr3 := 0#32, cr4 := 0#32 }

theorem walk_initPaging_sample :
    ([PagingOp.flushTlb 2].foldl (PagingOp.run sampleLayout)
        (initPaging sampleLayout zeroPaging)).mmu.walk
      ([PagingOp.flushTlb 2].foldl (PagingOp.run sampleLayout)
        (initPaging sampleLayout zeroPaging)).phys { user := true, write := true } 0x08000004#32 =
      some 0x1000004 :=
  (walk_initPaging (fun _ _ _ => rfl) (by decide) zeroRam [.flushTlb 2] _ _).trans
    (translate_program (by decide))

theorem walk_isolated_sample :
    (2 : Pid) = ([PagingOp.flushTlb 2].foldl PagingOp.apply (bootProcs zeroRam)).cr3 ∧
      ProgramAddr 0x08000004#32 := by
  have htables := holdsTables_run (holdsTables_initPaging (L := sampleLayout) (s := zeroPaging)
    (fun _ _ _ => rfl) (by decide) zeroRam) [.flushTlb 2]
  exact walk_isolated (fun _ _ _ => rfl) (by decide) zeroRam [.flushTlb 2]
    (show ProgramFrame 2 0x1000004 by decide)
    ((htables.walk_eq { user := true, write := true } _).trans (translate_program (by decide)))

end Ece391
