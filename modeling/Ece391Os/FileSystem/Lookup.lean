import Ece391Os.FileSystem.Image

/-!
# Directory lookup

`read_dentry_by_name` and `read_dentry_by_index` of `filesystem.c` over the memory of the `dentry_t`
they fill: the name in bytes 0 to 31, the type and the inode in the two words behind it.

* `readDentryByNameInto` copies the three fields, `readDentryByIndexInto` loads and stores the two
  words. `readDentryByNameInto_eq` and `readDentryByIndexInto_eq`: both leave the first 40 bytes of
  the entry.
* `FirstNamed img name i`: entry `i` is the first one of that name. `findEntry_spec` is the search.
* `lookupExact_iff`: a lookup finds the whole name, and nothing else, except for a name of more than
  32 bytes that begins with the 32 bytes of an entry.
* `roundTrips`: the name of an entry read by its index leads back to the first entry of that name.
-/

namespace Ece391

/-- The fields in the memory of a `dentry_t`. -/
def Dentry.ofBuffer (dentry : Buffer) : Dentry where
  filename := dentry.bytesOf 0 32
  filetype := dentry.leWord 32
  inodeNum := dentry.leWord 36

namespace FsImage

/-- The memory of the image from an address on. -/
def memAt (img : FsImage) (a : Word) : Buffer := fun j => img.mem (a + BitVec.ofNat 32 j)

/-- `read_dentry_by_name`: the return value and the memory of the `dentry_t`. -/
def readDentryByNameInto (img : FsImage) (fname dentry : Buffer) : Word × Buffer :=
  let i := img.findEntry fname img.entryCount 0
  if i < img.entryCount then
    let dentry := dentry.splice 0 (img.memAt (img.entryPtr i)) 32
    let dentry := dentry.splice 32 (img.memAt (img.entryPtr i + 32#32)) 4
    (0#32, dentry.splice 36 (img.memAt (img.entryPtr i + 36#32)) 4)
  else (-1#32, dentry)

/-- `read_dentry_by_index`: the return value and the memory of the `dentry_t`. -/
def readDentryByIndexInto (img : FsImage) (index : Word) (dentry : Buffer) : Word × Buffer :=
  if index.toNat ≥ img.numOfEntries.toNat then (-1#32, dentry)
  else
    let entry := img.entryPtr index.toNat
    let dentry := dentry.splice 0 (img.memAt entry) 32
    let dentry := dentry.storeWord 32 (leWord img.mem (entry + 32#32))
    (0#32, dentry.storeWord 36 (leWord img.mem (entry + 36#32)))

/-- The name of an entry: its field up to the first NUL, or all of it. -/
def entryString (img : FsImage) (i : ℕ) : List Byte := stringOf (img.entryName i) 32

/-- Entry `i` is the first one of the directory that has the name. -/
structure FirstNamed (img : FsImage) (name : List Byte) (i : ℕ) : Prop where
  lt : i < img.entryCount
  named : img.entryString i = name
  first : ∀ j < i, img.entryString j ≠ name

/-! ## The two decoders -/

section

variable {img : FsImage} {fname dentry : Buffer}

/-- The memory from an address in an entry on. -/
theorem memAt_entryPtr_add (img : FsImage) (i n : ℕ) :
    img.memAt (img.entryPtr i + BitVec.ofNat 32 n) = fun j => img.entryName i (n + j) := by
  funext j
  rw [memAt, entryName, BitVec.add_assoc, ← BitVec.ofNat_add]

/-- The name and two words that are copied one behind the other are the start of the entry. -/
theorem splice_entry (img : FsImage) (i : ℕ) (dentry : Buffer) :
    ((dentry.splice 0 (img.memAt (img.entryPtr i)) 32).splice 32
        (img.memAt (img.entryPtr i + 32#32)) 4).splice 36 (img.memAt (img.entryPtr i + 36#32)) 4 =
      dentry.overwrite (img.entryName i) 40 := by
  have hname : img.memAt (img.entryPtr i) = img.entryName i := rfl
  -- three adjacent copies from one source are one copy
  rw [memAt_entryPtr_add img i 32, memAt_entryPtr_add img i 36, hname, Buffer.splice_zero_start,
    Buffer.overwrite_splice, Buffer.overwrite_splice]

theorem readDentryByNameInto_eq (fname dentry : Buffer) :
    img.readDentryByNameInto fname dentry =
      if img.findEntry fname img.entryCount 0 < img.entryCount then
        (0#32, dentry.overwrite (img.entryName (img.findEntry fname img.entryCount 0)) 40)
      else (-1#32, dentry) := by
  rw [readDentryByNameInto]
  simp only [splice_entry]

theorem readDentryByIndexInto_eq (index : Word) (dentry : Buffer) :
    img.readDentryByIndexInto index dentry =
      if index.toNat < img.numOfEntries.toNat then
        (0#32, dentry.overwrite (img.entryName index.toNat) 40)
      else (-1#32, dentry) := by
  rw [readDentryByIndexInto]
  by_cases hlt : index.toNat < img.numOfEntries.toNat
  · -- a word that is loaded and stored is copied
    have hword : ∀ (buf : Buffer) (n : ℕ) (a : Word), buf.storeWord n (leWord img.mem a) =
        buf.splice n (img.memAt a) 4 := fun buf n a => storeWord_leWord buf n img.mem a
    rw [if_neg (not_le.mpr hlt), if_pos hlt]
    simp only [hword, splice_entry]
  · rw [if_pos (not_lt.mp hlt), if_neg hlt]

/-- The fields of a `dentry_t` that holds the start of an entry. -/
theorem ofBuffer_overwrite (i : ℕ) (dentry : Buffer) :
    Dentry.ofBuffer (dentry.overwrite (img.entryName i) 40) = img.dentry i := by
  -- a word of the copy is the word of the image at that offset
  have hword : ∀ n, (img.entryName i).leWord n =
      leWord img.mem (img.entryPtr i + BitVec.ofNat 32 n) := by
    intro n
    simp only [Buffer.leWord, leWord, entryName, BitVec.ofNat_add, ← BitVec.add_assoc]
  rw [Dentry.ofBuffer, Buffer.bytesOf_overwrite _ _ _ _ (by decide),
    Buffer.leWord_overwrite _ _ _ _ (by decide),
    Buffer.leWord_overwrite _ _ _ _ (by decide), hword, hword]
  rfl

/-- The lookup that `open` and `execute` use returns these fields. -/
theorem readDentryByName_eq (fname dentry : Buffer) :
    img.readDentryByName fname =
      if (img.readDentryByNameInto fname dentry).1 = 0#32 then
        some (Dentry.ofBuffer (img.readDentryByNameInto fname dentry).2)
      else none := by
  rw [readDentryByNameInto_eq, readDentryByName]
  split_ifs with hlt hzero hzero
  · rw [ofBuffer_overwrite]
  · exact absurd rfl hzero
  · cases hzero
  · rfl

/-- The lookup by index returns them, too. -/
theorem readDentryByIndex_eq (index : Word) (dentry : Buffer) :
    img.readDentryByIndex index =
      if (img.readDentryByIndexInto index dentry).1 = 0#32 then
        some (Dentry.ofBuffer (img.readDentryByIndexInto index dentry).2)
      else none := by
  rw [readDentryByIndexInto_eq, readDentryByIndex]
  by_cases hlt : index.toNat < img.numOfEntries.toNat
  · rw [if_neg (not_le.mpr hlt), if_pos hlt, if_pos rfl, ofBuffer_overwrite]
  · have hfail : ¬ (-1#32 = 0#32) := by decide
    rw [if_pos (not_lt.mp hlt), if_neg hlt, if_neg hfail]

/-! ## The search -/

/-- The loop stops at the first entry that `strncmp` takes for the name, or behind the last. -/
theorem findEntry_spec (fname : Buffer) (n i : ℕ) :
    i ≤ img.findEntry fname n i ∧ img.findEntry fname n i ≤ i + n ∧
      (∀ j, i ≤ j → j < img.findEntry fname n i → img.entryString j ≠ stringOf fname 32) ∧
      (img.findEntry fname n i < i + n →
        img.entryString (img.findEntry fname n i) = stringOf fname 32) := by
  induction n generalizing i with
  | zero =>
    rw [findEntry]
    exact ⟨le_rfl, le_rfl, fun j hle hlt => absurd hlt (by omega), fun hlt => absurd hlt (by omega)⟩
  | succ n ih =>
    rw [findEntry]
    by_cases hmatch : stringOf (img.entryName i) 32 = stringOf fname 32
    · -- the loop stops here
      rw [if_neg (not_not.mpr (strncmp_eq_zero_iff.mpr hmatch))]
      exact ⟨le_rfl, by omega, fun j hle hlt => absurd hlt (by omega), fun _ => hmatch⟩
    · -- the loop goes on with the next entry
      rw [if_pos (mt strncmp_eq_zero_iff.mp hmatch)]
      obtain ⟨hle, hend, hbefore, hfound⟩ := ih (i + 1)
      refine ⟨by omega, by omega, fun j hij hj => ?_, fun hlt => hfound (by omega)⟩
      rcases Nat.eq_or_lt_of_le hij with rfl | hij
      · exact hmatch
      · exact hbefore j hij hj

/-- The search finds the first entry of a name. -/
theorem findEntry_eq {i : ℕ} (h : FirstNamed img (stringOf fname 32) i) :
    img.findEntry fname img.entryCount 0 = i := by
  obtain ⟨-, hend, hbefore, hfound⟩ := img.findEntry_spec fname img.entryCount 0
  -- neither an earlier stop nor a later one fits the first entry of the name
  rcases Nat.lt_trichotomy (img.findEntry fname img.entryCount 0) i with hlt | heq | hgt
  · exact absurd (hfound (by have := h.lt; omega)) (h.first _ hlt)
  · exact heq
  · exact absurd h.named (hbefore i (Nat.zero_le i) hgt)

/-- It finds an entry only if one has the name. -/
theorem findEntry_eq_entryCount
    (h : ∀ i < img.entryCount, img.entryString i ≠ stringOf fname 32) :
    img.findEntry fname img.entryCount 0 = img.entryCount := by
  obtain ⟨-, hend, -, hfound⟩ := img.findEntry_spec fname img.entryCount 0
  by_contra hne
  have hlt : img.findEntry fname img.entryCount 0 < img.entryCount := by omega
  exact h _ hlt (hfound (by omega))

/-- An entry of a name is not before the first one. -/
theorem exists_firstNamed {name : List Byte} {i : ℕ} (hi : i < img.entryCount)
    (hname : img.entryString i = name) : ∃ j ≤ i, FirstNamed img name j := by
  have hex : ∃ j, img.entryString j = name := ⟨i, hname⟩
  have hle : Nat.find hex ≤ i := Nat.find_min' hex hname
  exact ⟨Nat.find hex, hle, hle.trans_lt hi, Nat.find_spec hex, fun j hj => Nat.find_min hex hj⟩

/-- The lookup of a name that some entry has. -/
theorem readDentryByNameInto_found {i : ℕ} (h : FirstNamed img (stringOf fname 32) i) :
    img.readDentryByNameInto fname dentry = (0#32, dentry.overwrite (img.entryName i) 40) := by
  rw [readDentryByNameInto_eq, findEntry_eq h, if_pos h.lt]

/-- The lookup of a name that no entry has. -/
theorem readDentryByNameInto_missing
    (h : ∀ i < img.entryCount, img.entryString i ≠ stringOf fname 32) :
    img.readDentryByNameInto fname dentry = (-1#32, dentry) := by
  rw [readDentryByNameInto_eq, findEntry_eq_entryCount h, if_neg (lt_irrefl _)]

end

/-! ## Whole names -/

/-- A lookup returns the fields of the first entry whose name is the given one, and fails without a
store if there is none. -/
structure LookupExact (img : FsImage) (name : List Byte) (fname dentry : Buffer) : Prop where
  found : ∀ i, FirstNamed img name i →
    (img.readDentryByNameInto fname dentry).1 = 0#32 ∧
      Dentry.ofBuffer (img.readDentryByNameInto fname dentry).2 = img.dentry i
  missing : (∀ i < img.entryCount, img.entryString i ≠ name) →
    img.readDentryByNameInto fname dentry = (-1#32, dentry)

/-- The name field of an entry is full, and the given name goes on behind these 32 bytes. -/
def ExtendsFullName (img : FsImage) (fname : Buffer) (m : ℕ) : Prop :=
  32 < m ∧ ∃ i < img.entryCount, (img.entryName i).bytesOf 0 32 = fname.bytesOf 0 32

/-- No entry has a name that is longer than its field. -/
theorem entryString_ne_of_lt {img : FsImage} {fname : Buffer} {m : ℕ} (hlong : 32 < m) (i : ℕ) :
    img.entryString i ≠ fname.bytesOf 0 m := by
  intro heq
  have hlen := (List.takeWhile_sublist (fun b => b != 0#8)
    (l := (img.entryName i).bytesOf 0 32)).length_le
  have hlength := congrArg List.length heq
  rw [entryString, stringOf, Buffer.length_bytesOf] at hlength
  rw [Buffer.length_bytesOf] at hlen
  omega

/-- `strncmp` stops at the end of the full field, so the longer name is found. -/
theorem ExtendsFullName.not_lookupExact {img : FsImage} {fname dentry : Buffer} {m : ℕ}
    (h : ExtendsFullName img fname m) : ¬ LookupExact img (fname.bytesOf 0 m) fname dentry := by
  intro hexact
  obtain ⟨hlong, i, hi, hfull⟩ := h
  have hmissing := hexact.missing fun i _ => entryString_ne_of_lt hlong i
  have hstring : img.entryString i = stringOf fname 32 := by
    rw [entryString, stringOf, hfull]
    rfl
  -- some entry is taken for the name, and the call returns 0
  obtain ⟨j, -, hj⟩ := exists_firstNamed hi hstring
  rw [readDentryByNameInto_found hj] at hmissing
  cases (Prod.mk.inj hmissing).1

/-- A lookup of a string finds exactly the entries of this name, unless the string is longer than
32 bytes and begins with a name that fills its field. -/
theorem lookupExact_iff {img : FsImage} {fname dentry : Buffer} {m : ℕ}
    (hm : strlen fname = some m) :
    LookupExact img (fname.bytesOf 0 m) fname dentry ↔ ¬ ExtendsFullName img fname m := by
  by_cases hle : m ≤ 32
  · -- `strncmp` sees all of the string
    have hname : stringOf fname 32 = fname.bytesOf 0 m := stringOf_of_strlen_le hm hle
    refine iff_of_true ⟨fun i hi => ?_, fun hno => ?_⟩ fun hlong => absurd hlong.1 (by omega)
    · rw [← hname] at hi
      rw [readDentryByNameInto_found hi]
      exact ⟨rfl, ofBuffer_overwrite i dentry⟩
    · rw [← hname] at hno
      exact readDentryByNameInto_missing hno
  · -- no entry has the whole name, which is longer than a field
    have hcut : stringOf fname 32 = fname.bytesOf 0 32 := stringOf_of_lt_strlen hm (by omega)
    have hnone : ∀ i, img.entryString i ≠ fname.bytesOf 0 m :=
      entryString_ne_of_lt (not_le.mp hle)
    constructor
    · intro hexact hextends
      exact hextends.not_lookupExact hexact
    · intro hshort
      refine ⟨fun i hi => absurd hi.named (hnone i), fun _ => ?_⟩
      -- an entry that is found has the first 32 bytes for its name
      refine readDentryByNameInto_missing fun i hi hstring => hshort ⟨by omega, i, hi, ?_⟩
      -- the 32 bytes of the string are no NUL, so the field is full
      have hlen := congrArg List.length (hstring.trans hcut)
      rw [Buffer.length_bytesOf] at hlen
      have hfield : img.entryString i = (img.entryName i).bytesOf 0 32 :=
        (List.takeWhile_prefix _).eq_of_length (by rw [Buffer.length_bytesOf]; exact hlen)
      rw [← hfield, hstring, hcut]

/-- An image with one file, whose name fills its field. -/
def longNameImage : FsImage where
  filesystemBase := 0#32
  mem := memoryOf [(0, [1#8, 0#8, 0#8, 0#8, 1#8, 0#8, 0#8, 0#8, 1#8]),
    (64, ascii "verylargetxtwithverylongname.txt"), (96, [2#8])]

theorem lookupExact_longName :
    LookupExact longNameImage
      ((cString "verylargetxtwithverylongname.tx" fun _ => 0#8).bytesOf 0 31)
      (cString "verylargetxtwithverylongname.tx" fun _ => 0#8) fun _ => 0#8 :=
  (lookupExact_iff (strlen_eq_some.mpr (by decide +kernel))).mpr fun hlong =>
    absurd hlong.1 (by decide)

/-- A name with one more letter than the file's is found. -/
theorem not_lookupExact_extension :
    strlen (cString "verylargetxtwithverylongname.txts" fun _ => 0#8) = some 33 ∧
      (longNameImage.readDentryByNameInto
        (cString "verylargetxtwithverylongname.txts" fun _ => 0#8) fun _ => 0#8).1 = 0#32 ∧
      ¬ LookupExact longNameImage
        ((cString "verylargetxtwithverylongname.txts" fun _ => 0#8).bytesOf 0 33)
        (cString "verylargetxtwithverylongname.txts" fun _ => 0#8) fun _ => 0#8 := by
  have hm : strlen (cString "verylargetxtwithverylongname.txts" fun _ => 0#8) = some 33 :=
    strlen_eq_some.mpr (by decide +kernel)
  have hextends : ExtendsFullName longNameImage
      (cString "verylargetxtwithverylongname.txts" fun _ => 0#8) 33 :=
    ⟨by decide, 0, by decide +kernel, by decide +kernel⟩
  exact ⟨hm, by decide +kernel, hextends.not_lookupExact⟩

/-! ## Lookup by index -/

/-- A lookup by index fails exactly behind the directory, without a store. The name of the entry it
finds leads to the first entry of that name, which is the same one in a directory without
duplicates. -/
structure RoundTrips (img : FsImage) (index : Word) : Prop where
  fails : ∀ dentry, (img.readDentryByIndexInto index dentry).1 = -1#32 ↔
    img.numOfEntries.toNat ≤ index.toNat
  unchanged : img.numOfEntries.toNat ≤ index.toNat →
    ∀ dentry, (img.readDentryByIndexInto index dentry).2 = dentry
  byName : index.toNat < img.numOfEntries.toNat → ∀ dentry dentry' dentry'',
    ∃ j : Word, j ≤ index ∧ FirstNamed img (img.entryString index.toNat) j.toNat ∧
      (img.readDentryByNameInto (img.readDentryByIndexInto index dentry).2 dentry').1 = 0#32 ∧
      Dentry.ofBuffer
          (img.readDentryByNameInto (img.readDentryByIndexInto index dentry).2 dentry').2 =
        Dentry.ofBuffer (img.readDentryByIndexInto j dentry'').2
  distinct : (∀ i < img.entryCount, ∀ j < img.entryCount,
      img.entryString i = img.entryString j → i = j) →
    index.toNat < img.numOfEntries.toNat → ∀ dentry dentry',
      Dentry.ofBuffer
          (img.readDentryByNameInto (img.readDentryByIndexInto index dentry).2 dentry').2 =
        Dentry.ofBuffer (img.readDentryByIndexInto index dentry).2

/-- The loops visit as many entries as the header says. -/
theorem entryCount_eq {img : FsImage} (hn : img.numOfEntries.toNat ≤ 63) :
    img.entryCount = img.numOfEntries.toNat := by
  rw [entryCount, BitVec.toInt_eq_toNat_of_lt (by omega), Int.toNat_natCast]

/-- The name in a `dentry_t` that holds the start of an entry. -/
theorem stringOf_overwrite (img : FsImage) (i : ℕ) (dentry : Buffer) :
    stringOf (dentry.overwrite (img.entryName i) 40) 32 = img.entryString i := by
  rw [stringOf, Buffer.bytesOf_overwrite _ _ _ _ (by decide)]
  rfl

/-- In every image with at most 63 directory entries, lookup by index and lookup by name agree. -/
theorem roundTrips {img : FsImage} (hn : img.numOfEntries.toNat ≤ 63) (index : Word) :
    RoundTrips img index := by
  have hcount := entryCount_eq hn
  have hfound : ∀ index : Word, index.toNat < img.numOfEntries.toNat → ∀ dentry,
      img.readDentryByIndexInto index dentry =
        (0#32, dentry.overwrite (img.entryName index.toNat) 40) := fun index hlt dentry => by
    rw [readDentryByIndexInto_eq, if_pos hlt]
  have hbehind : img.numOfEntries.toNat ≤ index.toNat → ∀ dentry,
      img.readDentryByIndexInto index dentry = (-1#32, dentry) := fun hle dentry => by
    rw [readDentryByIndexInto_eq, if_neg (not_lt.mpr hle)]
  -- the name of an entry is looked up
  have hname : index.toNat < img.numOfEntries.toNat → ∀ dentry dentry' j,
      FirstNamed img (img.entryString index.toNat) j →
      img.readDentryByNameInto (img.readDentryByIndexInto index dentry).2 dentry' =
        (0#32, dentry'.overwrite (img.entryName j) 40) := by
    intro hlt dentry dentry' j hj
    rw [hfound index hlt]
    rw [← stringOf_overwrite img index.toNat dentry] at hj
    exact readDentryByNameInto_found hj
  refine ⟨fun dentry => ?_, fun hle dentry => by rw [hbehind hle], ?_, ?_⟩
  · by_cases hlt : index.toNat < img.numOfEntries.toNat
    · rw [hfound index hlt]
      refine iff_of_false (fun h => ?_) (not_le.mpr hlt)
      cases h
    · rw [hbehind (not_lt.mp hlt)]
      exact iff_of_true rfl (not_lt.mp hlt)
  · intro hlt dentry dentry' dentry''
    obtain ⟨j, hle, hj⟩ : ∃ j ≤ index.toNat, FirstNamed img (img.entryString index.toNat) j :=
      exists_firstNamed (hcount ▸ hlt) rfl
    -- the first entry of the name is no later than the entry itself, so its number is a word
    have hjnat : (BitVec.ofNat 32 j).toNat = j := toNat_ofNat_of_lt (by omega)
    refine ⟨BitVec.ofNat 32 j, ?_, by rwa [hjnat], ?_⟩
    · rw [BitVec.le_def, hjnat]
      exact hle
    · rw [hname hlt dentry dentry' j hj, hfound _ (by omega), ofBuffer_overwrite,
        ofBuffer_overwrite, hjnat]
      exact ⟨rfl, rfl⟩
  · intro hdistinct hlt dentry dentry'
    -- without duplicates the entry itself is the first of its name
    have hfirst : FirstNamed img (img.entryString index.toNat) index.toNat :=
      ⟨hcount ▸ hlt, rfl, fun j hj heq =>
        absurd (hdistinct j (by omega) index.toNat (by omega) heq) (Nat.ne_of_lt hj)⟩
    rw [hname hlt dentry dentry' _ hfirst, hfound index hlt, ofBuffer_overwrite,
      ofBuffer_overwrite]

/-- The directory with the long name. -/
theorem roundTrips_longName : RoundTrips longNameImage 0#32 :=
  roundTrips (by decide +kernel) 0#32

end FsImage

end Ece391
