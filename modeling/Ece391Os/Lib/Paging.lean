import Ece391Os.Lib.Memory

/-!
# The paging unit of the i386

An address space is a page directory of 1024 entries. An entry maps a 4 MB page, or names a page
table that maps 4 KB pages. The parameter `τ` is the type of the names of the tables.

* `translate` is the physical address an access goes to, `none` for a page fault.
* `translate_page` and `translate_table` compute it for the two kinds of entries.
* Without the write-protect bit of CR0, which no code here sets, the supervisor may access every
  page that is present.
* `Mmu.walk` is the walk of the processor through the words of a directory and a table.
-/

namespace I386

/-- An access: whether user code makes it, and whether it stores. -/
structure Access where
  user : Bool
  write : Bool

/-- The bits of an entry that are checked. -/
structure AccessBits where
  present : Bool
  readWrite : Bool
  userSupervisor : Bool

/-- The entry permits the access. -/
def AccessBits.Permits (bits : AccessBits) (access : Access) : Prop :=
  bits.present = true ∧ (access.user = true → bits.userSupervisor = true) ∧
    (access.user = true → access.write = true → bits.readWrite = true)

instance (bits : AccessBits) (access : Access) : Decidable (bits.Permits access) :=
  inferInstanceAs (Decidable (_ ∧ _))

/-- Neither present nor writable. -/
def AccessBits.none : AccessBits :=
  { present := false, readWrite := false, userSupervisor := false }

/-- Every access is permitted. -/
def AccessBits.all : AccessBits :=
  { present := true, readWrite := true, userSupervisor := true }

theorem AccessBits.permits_all (access : Access) : AccessBits.all.Permits access :=
  ⟨rfl, fun _ => rfl, fun _ _ => rfl⟩

theorem AccessBits.not_permits_none (access : Access) : ¬ AccessBits.none.Permits access :=
  fun h => Bool.false_ne_true h.1

/-- What the address field of a directory entry means: with `page_size` set the 4 KB frame number at
which a 4 MB page starts, otherwise a page table. -/
inductive Target (τ : Type*)
  | page (frame : ℕ)
  | table (t : τ)

/-- `page_directory_entry` -/
structure DirectoryEntry (τ : Type*) where
  bits : AccessBits
  target : Target τ

/-- `page_table_entry` -/
structure TableEntry where
  bits : AccessBits
  physPageAddr : ℕ

variable {τ : Type*}

/-- The physical address of an access, by the directory and the page tables. -/
def translate (directory : ℕ → DirectoryEntry τ) (tables : τ → ℕ → TableEntry) (access : Access)
    (va : Word) : Option ℕ :=
  let pde := directory (va.toNat / 0x400000)
  if pde.bits.Permits access then
    match pde.target with
    | .page frame => some (frame / 0x400 * 0x400000 + va.toNat % 0x400000)
    | .table t =>
      let pte := tables t (va.toNat / 0x1000 % 0x400)
      if pte.bits.Permits access then some (pte.physPageAddr * 0x1000 + va.toNat % 0x1000) else none
  else none

variable {directory : ℕ → DirectoryEntry τ} {tables : τ → ℕ → TableEntry} {access : Access}
  {va : Word}
  {frame pa : ℕ} {t : τ}

/-- A 4 MB page. -/
theorem translate_page (htarget : (directory (va.toNat / 0x400000)).target = .page frame) :
    translate directory tables access va = some pa ↔
      (directory (va.toNat / 0x400000)).bits.Permits access ∧
        frame / 0x400 * 0x400000 + va.toNat % 0x400000 = pa := by
  simp only [translate, htarget]
  split_ifs with hpermits
  · rw [Option.some.injEq, and_iff_right hpermits]
  · simp [hpermits]

/-- A 4 KB page. -/
theorem translate_table (htarget : (directory (va.toNat / 0x400000)).target = .table t) :
    translate directory tables access va = some pa ↔
      (directory (va.toNat / 0x400000)).bits.Permits access ∧
        (tables t (va.toNat / 0x1000 % 0x400)).bits.Permits access ∧
        (tables t (va.toNat / 0x1000 % 0x400)).physPageAddr * 0x1000 + va.toNat % 0x1000 = pa := by
  simp only [translate, htarget]
  split_ifs with hdir hpage
  · rw [Option.some.injEq, and_iff_right hdir, and_iff_right hpage]
  · simp [hpage]
  · simp [hdir]

/-! ## The page walk -/

/-- Physical memory as the processor reads tables in it: pages of 1024 words, by frame number. -/
abbrev Frames := BitVec 20 → ℕ → Word

/-- The control registers of the paging unit. -/
structure Mmu where
  cr0 : Word
  cr3 : Word
  cr4 : Word

/-- The access bits of an entry in a table. -/
def AccessBits.ofEntry (entry : Word) : AccessBits where
  present := entry.getLsbD 0
  readWrite := entry.getLsbD 1
  userSupervisor := entry.getLsbD 2

/-- What the processor checks, with the write-protect bit of CR0. -/
def AccessBits.Passes (bits : AccessBits) (writeProtect : Bool) (access : Access) : Prop :=
  bits.present = true ∧ (access.user = true → bits.userSupervisor = true) ∧
    (access.write = true → access.user = true ∨ writeProtect = true → bits.readWrite = true)

instance (bits : AccessBits) (writeProtect : Bool) (access : Access) :
    Decidable (bits.Passes writeProtect access) := inferInstanceAs (Decidable (_ ∧ _))

/-- The page walk: the directory entry by bits 22 to 31 of the address, for 4 KB pages then the
table entry by bits 12 to 21. -/
def Mmu.walk (mmu : Mmu) (phys : Frames) (access : Access) (va : Word) : Option ℕ :=
  if mmu.cr0.getLsbD 31 then
    let pde := phys (mmu.cr3.extractLsb' 12 20) (va.extractLsb' 22 10).toNat
    if (AccessBits.ofEntry pde).Passes (mmu.cr0.getLsbD 16) access then
      if mmu.cr4.getLsbD 4 && pde.getLsbD 7 then
        some ((pde.extractLsb' 22 10).toNat * 0x400000 + (va.extractLsb' 0 22).toNat)
      else
        let pte := phys (pde.extractLsb' 12 20) (va.extractLsb' 12 10).toNat
        if (AccessBits.ofEntry pte).Passes (mmu.cr0.getLsbD 16) access then
          some ((pte.extractLsb' 12 20).toNat * 0x1000 + (va.extractLsb' 0 12).toNat)
        else none
    else none
  else some va.toNat

/-- Without write protection the processor checks what `Permits` says. -/
theorem AccessBits.passes_iff {bits : AccessBits} {access : Access} :
    bits.Passes false access ↔ bits.Permits access := by
  unfold Passes Permits
  constructor
  · rintro ⟨hpresent, huser, hwrite⟩
    exact ⟨hpresent, huser, fun hu hw => hwrite hw (Or.inl hu)⟩
  · rintro ⟨hpresent, huser, hwrite⟩
    exact ⟨hpresent, huser, fun hw hu => hwrite (hu.resolve_right Bool.false_ne_true) hw⟩

/-- A word is what the processor reads as an entry of a directory, with the tables at their frames.
An entry that is not present may have any address. -/
structure DirectoryWord (frame : τ → BitVec 20) (word : Word) (entry : DirectoryEntry τ) :
    Prop where
  bits : AccessBits.ofEntry word = entry.bits
  target : entry.bits.present = true →
    match entry.target with
    | .page f => word.getLsbD 7 = true ∧ (word.extractLsb' 22 10).toNat = f / 0x400
    | .table t => word.getLsbD 7 = false ∧ word.extractLsb' 12 20 = frame t

/-- The same for an entry of a page table. -/
structure TableWord (word : Word) (entry : TableEntry) : Prop where
  bits : AccessBits.ofEntry word = entry.bits
  addr : entry.bits.present = true → (word.extractLsb' 12 20).toNat = entry.physPageAddr

/-- The processor reads an entry in its access bits, its page size and its address only. -/
theorem DirectoryWord.congr {frame : τ → BitVec 20} {word word' : Word} {entry : DirectoryEntry τ}
    (h : DirectoryWord frame word entry)
    (hbits : AccessBits.ofEntry word' = AccessBits.ofEntry word)
    (hsize : word'.getLsbD 7 = word.getLsbD 7)
    (haddr : word'.extractLsb' 12 20 = word.extractLsb' 12 20) :
    DirectoryWord frame word' entry := by
  have hpart : ∀ w : Word, w.extractLsb' 22 10 = (w.extractLsb' 12 20).extractLsb' 10 10 := by
    intro w
    apply BitVec.eq_of_getLsbD_eq
    intro i hi
    have hinner : 10 + i < 20 := by omega
    simp [hi, hinner, ← Nat.add_assoc]
  refine { bits := hbits.trans h.bits, target := ?_ }
  rw [hsize, haddr, hpart, haddr, ← hpart]
  exact h.target

theorem TableWord.congr {word word' : Word} {entry : TableEntry} (h : TableWord word entry)
    (hbits : AccessBits.ofEntry word' = AccessBits.ofEntry word)
    (haddr : word'.extractLsb' 12 20 = word.extractLsb' 12 20) : TableWord word' entry := by
  refine { bits := hbits.trans h.bits, addr := ?_ }
  rw [haddr]
  exact h.addr

/-- Paging is on, with 4 MB pages and without write protection. -/
structure Mmu.Enabled (mmu : Mmu) : Prop where
  paging : mmu.cr0.getLsbD 31 = true
  pageSize : mmu.cr4.getLsbD 4 = true
  writeProtect : mmu.cr0.getLsbD 16 = false

/-- The walk through words that stand for a directory and its tables finds what they say. -/
theorem Mmu.walk_eq {mmu : Mmu} {phys : Frames} {frame : τ → BitVec 20} (henabled : mmu.Enabled)
    (hdirectory : ∀ i < 1024,
      DirectoryWord frame (phys (mmu.cr3.extractLsb' 12 20) i) (directory i))
    (htables : ∀ t, ∀ i < 1024, TableWord (phys (frame t) i) (tables t i)) :
    mmu.walk phys access va = translate directory tables access va := by
  have hdir : (va.extractLsb' 22 10).toNat = va.toNat / 0x400000 := by
    rw [BitVec.extractLsb'_toNat, Nat.shiftRight_eq_div_pow]
    omega
  have htable : (va.extractLsb' 12 10).toNat = va.toNat / 0x1000 % 0x400 := by
    rw [BitVec.extractLsb'_toNat, Nat.shiftRight_eq_div_pow]
  have hlarge : (va.extractLsb' 0 22).toNat = va.toNat % 0x400000 := by
    rw [BitVec.extractLsb'_toNat, Nat.shiftRight_zero]
  have hsmall : (va.extractLsb' 0 12).toNat = va.toNat % 0x1000 := by
    rw [BitVec.extractLsb'_toNat, Nat.shiftRight_zero]
  obtain ⟨hbits, htarget⟩ := hdirectory (va.toNat / 0x400000) (by omega)
  rw [Mmu.walk, if_pos henabled.paging, translate, hdir, htable, hlarge, hsmall,
    henabled.writeProtect, henabled.pageSize]
  simp only [AccessBits.passes_iff, hbits]
  by_cases hpermits : (directory (va.toNat / 0x400000)).bits.Permits access
  · specialize htarget hpermits.1
    rw [if_pos hpermits, if_pos hpermits]
    -- the bit for the page size decides which of the two a present entry is
    cases hentry : (directory (va.toNat / 0x400000)).target with
    | page f =>
      rw [hentry] at htarget
      rw [htarget.1, htarget.2]
      rfl
    | table t =>
      rw [hentry] at htarget
      obtain ⟨hpage, haddr⟩ := htables t (va.toNat / 0x1000 % 0x400) (Nat.mod_lt _ (by decide))
      rw [htarget.1, htarget.2, hpage, Bool.and_false, if_neg Bool.false_ne_true]
      dsimp only
      by_cases hpte : (tables t (va.toNat / 0x1000 % 0x400)).bits.Permits access
      · rw [if_pos hpte, if_pos hpte, haddr hpte.1]
      · rw [if_neg hpte, if_neg hpte]
  · rw [if_neg hpermits, if_neg hpermits]

end I386
