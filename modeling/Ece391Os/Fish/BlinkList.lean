import Ece391Os.Fish.Blink

/-!
# The blink list

The slots of `blink_array` on the list are those with a location other than 0, so `mp1_malloc`
returns a slot that is not on it.

* `OnBoard s d l`: the memory `s` holds the blinkers of the board `d` in the slots `l`.
* `OnBoard.step`: a call ends, and does to the memory what it does to the board, unless it adds a
  blinker at location 0 while a slot is free.
* `ListSound`: the list ends, `mp1_malloc` returns no slot of it, and every call ends.
* `always_listSound_iff`: the list is sound in every state of a run exactly when no such blinker is
  added. `not_listSound_location_zero` adds one.
-/

namespace Ece391

open Transition

/-! ## The memory -/

namespace BlinkState

variable (s : BlinkState) (i j : Slot) (node : BlinkStruct) (b : Blinker) (link p : Option Slot)
  (eax : ℕ) (cl : Byte)

@[simp]
theorem blinkArray_setSlot_self : (s.setSlot i node).blinkArray i = node :=
  Function.update_self _ _ _

variable {i j} in
@[simp]
theorem blinkArray_setSlot_of_ne (h : j ≠ i) : (s.setSlot i node).blinkArray j = s.blinkArray j :=
  Function.update_of_ne h _ _

@[simp]
theorem vmem_setSlot : (s.setSlot i node).vmem = s.vmem := rfl

@[simp]
theorem toBlinker_setData_self : ((s.setData i b).blinkArray i).toBlinker = b := by
  simp [setData]

variable {i j} in
@[simp]
theorem blinkArray_setData_of_ne (h : j ≠ i) : (s.setData i b).blinkArray j = s.blinkArray j := by
  simp [setData, h]

@[simp]
theorem links_setData : (s.setData i b).links = s.links := by
  have hnext : ∀ j, ((s.setData i b).blinkArray j).next = (s.blinkArray j).next := by
    intro j
    by_cases hj : j = i
    · subst hj
      simp [setData]
    · rw [blinkArray_setData_of_ne s b hj]
  exact congrArg (Links.mk s.mp1ListHead) (funext hnext)

@[simp]
theorem links_mp1Poke : (s.mp1Poke eax cl).links = s.links := rfl

@[simp]
theorem blinkArray_mp1Poke : (s.mp1Poke eax cl).blinkArray = s.blinkArray := rfl

theorem links_storeLink : (s.storeLink link p).links = s.links.store link p := by
  cases link with
  | none => rfl
  | some i =>
    refine congrArg (Links.mk s.mp1ListHead) (funext fun j => ?_)
    by_cases hj : j = i
    · subst hj
      simp [storeLink]
    · simp [storeLink, hj, links]

@[simp]
theorem toBlinker_storeLink :
    ((s.storeLink link p).blinkArray j).toBlinker = (s.blinkArray j).toBlinker := by
  cases link with
  | none => rfl
  | some i =>
    by_cases hj : j = i
    · subst hj
      simp [storeLink]
    · simp [storeLink, hj]

@[simp]
theorem vmem_storeLink : (s.storeLink link p).vmem = s.vmem := by
  cases link <;> rfl

/-- The memory after an add that takes the slot `i`. -/
def pushed (user : BlinkStruct) : BlinkState :=
  ({ s.setSlot i { toBlinker := user.started, next := s.mp1ListHead } with
      mp1ListHead := some i } : BlinkState).mp1Poke user.started.cell user.started.onChar

variable {s i}

theorem mp1IoctlAdd_eq {user : BlinkStruct} (hi : s.mp1Malloc = some i)
    (huser : user.location.toNat < 2000) : s.mp1IoctlAdd user = (0#32, s.pushed i user) := by
  rw [mp1IoctlAdd, if_neg (by omega), hi]
  rfl

/-- The allocator takes the first slot whose location is 0. -/
theorem mp1Malloc_eq_some :
    s.mp1Malloc = some i ↔ (s.blinkArray i).location = 0#16 ∧
      ∀ j < i, (s.blinkArray j).location ≠ 0#16 := by
  rw [mp1Malloc, List.find?_eq_some_iff_getElem]
  simp only [List.getElem_finRange, beq_iff_eq, Bool.not_eq_true', beq_eq_false_iff_ne]
  constructor
  · rintro ⟨hi, n, hn, rfl, hfirst⟩
    exact ⟨hi, fun j hj => hfirst j.val hj⟩
  · rintro ⟨hi, hfirst⟩
    -- the slot of number `i` is the `i`th that the loop looks at
    have hlen : i.val < (List.finRange 2000).length := by
      rw [List.length_finRange]
      exact i.isLt
    exact ⟨hi, i.val, hlen, rfl, fun j hj => hfirst ⟨j, by omega⟩ hj⟩

theorem mp1Malloc_eq_none : s.mp1Malloc = none ↔ ∀ i, (s.blinkArray i).location ≠ 0#16 := by
  simp [mp1Malloc, List.find?_eq_none]

/-! ### The tick of a node -/

theorem blinkArray_tickNode (s : BlinkState) (i : Slot) :
    (s.tickNode i).blinkArray = (s.setData i (s.blinkArray i).tick).blinkArray := by
  rw [tickNode]
  split <;> rfl

theorem links_tickNode (s : BlinkState) (i : Slot) : (s.tickNode i).links = s.links := by
  have hsame : (s.tickNode i).links = (s.setData i (s.blinkArray i).tick).links := by
    rw [tickNode]
    split <;> rfl
  rw [hsame, links_setData]

theorem vmem_tickNode (s : BlinkState) (i : Slot) :
    (s.tickNode i).vmem = Board.drawTick s.vmem (s.blinkArray i).toBlinker := by
  rw [tickNode, Board.drawTick]
  cases (s.blinkArray i).tickChar <;> rfl

/-- The ticks of different nodes do not meet. -/
theorem foldl_tickNode {l : List Slot} (hl : l.Nodup) (s : BlinkState) :
    (l.foldl (fun s i => tickNode i s) s).links = s.links ∧
    (∀ j, ((l.foldl (fun s i => tickNode i s) s).blinkArray j).toBlinker =
      if j ∈ l then (s.blinkArray j).tick else (s.blinkArray j).toBlinker) ∧
    (l.foldl (fun s i => tickNode i s) s).vmem =
      (l.map fun i => (s.blinkArray i).toBlinker).foldl Board.drawTick s.vmem := by
  induction l generalizing s with
  | nil => exact ⟨rfl, fun j => rfl, rfl⟩
  | cons i l ih =>
    obtain ⟨hi, hl⟩ := List.nodup_cons.mp hl
    obtain ⟨hlinks, hdata, hvmem⟩ := ih hl (s.tickNode i)
    -- the first tick changes no other slot
    have hother : ∀ j, j ≠ i → (s.tickNode i).blinkArray j = s.blinkArray j := by
      intro j hj
      rw [blinkArray_tickNode, blinkArray_setData_of_ne _ _ hj]
    refine ⟨hlinks.trans (links_tickNode s i), fun j => ?_, ?_⟩
    · rw [List.foldl_cons, hdata]
      by_cases hj : j = i
      · -- the later ticks leave the slot of the first one alone
        subst hj
        rw [if_neg hi, if_pos List.mem_cons_self, blinkArray_tickNode, toBlinker_setData_self]
      · simp [hother j hj, hj]
    · -- the later ticks find what was there before the first one
      have hrest : l.map (fun j => ((s.tickNode i).blinkArray j).toBlinker) =
          l.map fun j => (s.blinkArray j).toBlinker := by
        refine List.map_congr_left fun j hj => ?_
        rw [hother j]
        rintro rfl
        exact hi hj
      rw [List.foldl_cons, hvmem, vmem_tickNode, hrest]
      rfl

end BlinkState

theorem Blinker.location_tick (b : Blinker) : b.tick.location = b.location := by
  rw [Blinker.tick]
  split_ifs <;> rfl

/-! ## The memory holds the board -/

/-- The slots `l` are the list, they are the slots in use, and they hold the blinkers. -/
structure OnBoard (s : BlinkState) (d : Board) (l : List Slot) : Prop where
  chain : s.links.IsChain l
  mem_iff : ∀ i, i ∈ l ↔ (s.blinkArray i).location ≠ 0#16
  blinkers : d.blinkers = l.map fun i => (s.blinkArray i).toBlinker
  vmem : d.vmem = s.vmem

/-- A blinker at location 0 is not added while a slot is free. -/
def AddsNonzero (s : BlinkState) : BlinkEvent → Prop
  | .add user => user.location = 0#16 → ∀ i, (s.blinkArray i).location ≠ 0#16
  | _ => True

namespace Board

/-- A change of one node of a list without repetitions. -/
theorem modifyFirst_map {l : List Slot} {g : Slot → Blinker} {p : Blinker → Bool}
    {f : Blinker → Blinker} {j : Slot} (hl : l.Nodup) (hj : (l.find? fun i => p (g i)) = some j) :
    l.map (Function.update g j (f (g j))) = modifyFirst p f (l.map g) := by
  induction l with
  | nil => cases hj
  | cons i l ih =>
    obtain ⟨hi, hl⟩ := List.nodup_cons.mp hl
    rw [List.find?_cons] at hj
    rw [List.map_cons, List.map_cons, modifyFirst]
    by_cases hp : p (g i) = true
    · rw [hp] at hj
      -- the first node has the property, and the rest is another node each
      obtain rfl := Option.some.inj hj
      rw [if_pos hp, Function.update_self]
      congr 1
      refine List.map_congr_left fun a ha => Function.update_of_ne ?_ _ _
      rintro rfl
      exact hi ha
    · rw [Bool.not_eq_true] at hp
      rw [hp] at hj
      -- the node comes later
      have hne : i ≠ j := by
        rintro rfl
        exact hi (List.mem_of_find?_eq_some hj)
      rw [if_neg (by simp [hp]), Function.update_of_ne hne, ih hl hj]

end Board

namespace OnBoard

variable {s s' : BlinkState} {d : Board} {l : List Slot}

theorem start (vmem : Buffer) : OnBoard (.start vmem) ⟨[], vmem⟩ [] where
  chain := rfl
  mem_iff i := by simp [BlinkState.start, BlinkStruct.zero]
  blinkers := rfl
  vmem := rfl

theorem length_le (h : OnBoard s d l) : l.length ≤ 2000 := by
  simpa using h.chain.length_le

theorem length_lt (h : OnBoard s d l) : l.length < BlinkState.loopLimit :=
  Nat.lt_succ_of_le h.length_le

/-- The allocator fails exactly when every slot is on the list. -/
theorem mp1Malloc_eq_none_iff (h : OnBoard s d l) : s.mp1Malloc = none ↔ l.length = 2000 := by
  have hcard : l.toFinset.card = l.length := List.toFinset_card_of_nodup h.chain.nodup
  rw [BlinkState.mp1Malloc_eq_none]
  constructor
  · -- all slots are in use, so all are on the list
    intro hfull
    have huniv : l.toFinset = Finset.univ :=
      Finset.eq_univ_of_forall fun i => List.mem_toFinset.mpr ((h.mem_iff i).mpr (hfull i))
    rw [← hcard, huniv, Finset.card_univ, Fintype.card_fin]
  · -- a list of 2000 distinct nodes has all slots
    intro hlen i
    have huniv : l.toFinset = Finset.univ := by
      apply Finset.eq_univ_of_card
      rw [hcard, hlen, Fintype.card_fin]
    exact (h.mem_iff i).mp (List.mem_toFinset.mp (huniv ▸ Finset.mem_univ i))

/-- A free slot is not on the list. -/
theorem not_mem_of_mp1Malloc (h : OnBoard s d l) {i : Slot} (hi : s.mp1Malloc = some i) :
    i ∉ l := fun hmem => (h.mem_iff i).mp hmem (BlinkState.mp1Malloc_eq_some.mp hi).1

/-- The search ends, at the first slot with the location. -/
theorem mp1FindHelper_eq (h : OnBoard s d l) (arg : Word) :
    s.mp1FindHelper arg = some (l.find? fun i => Board.isAt arg (s.blinkArray i).toBlinker) :=
  Links.search_eq h.chain _ h.length_lt

/-- The search on the board. -/
theorem find_blinkers (h : OnBoard s d l) (arg : Word) :
    d.blinkers.find? (Board.isAt arg) =
      (l.find? fun i => Board.isAt arg (s.blinkArray i).toBlinker).map fun i =>
        (s.blinkArray i).toBlinker := by
  rw [h.blinkers, List.find?_map]
  rfl

/-! ## The calls -/

/-- A blinker is put in a free slot, in front of the list. -/
theorem add (h : OnBoard s d l) {user : BlinkStruct} (hnonzero : AddsNonzero s (.add user)) :
    ∃ l', OnBoard (s.mp1IoctlAdd user).2 (d.step (.add user)) l' := by
  have hlen : d.blinkers.length = l.length := by rw [h.blinkers, List.length_map]
  rw [BlinkState.mp1IoctlAdd, Board.step, hlen]
  by_cases hloc : 2000 ≤ user.location.toNat
  · rw [if_pos hloc, if_neg (by omega)]
    -- a location behind the screen
    exact ⟨l, h⟩
  · rw [if_neg hloc]
    cases hi : s.mp1Malloc with
    | none =>
      rw [if_neg (by rw [h.mp1Malloc_eq_none_iff.mp hi]; omega)]
      exact ⟨l, h⟩
    | some i =>
      -- a free slot: it is not on the list, and the list is not full
      have hmem : i ∉ l := h.not_mem_of_mp1Malloc hi
      have hzero : (s.blinkArray i).location = 0#16 := (BlinkState.mp1Malloc_eq_some.mp hi).1
      have huser : user.location ≠ 0#16 := fun huser => hnonzero huser i hzero
      have hroom : l.length < 2000 := by
        have hsome : s.mp1Malloc ≠ none := by simp [hi]
        have hle := h.length_le
        have hne : l.length ≠ 2000 := fun hfull => hsome (h.mp1Malloc_eq_none_iff.mpr hfull)
        omega
      rw [if_pos ⟨by omega, hroom⟩]
      have hother : ∀ j ∈ l, j ≠ i := fun j hj heq => hmem (heq ▸ hj)
      refine ⟨i :: l, ?_, fun j => ?_, ?_, ?_⟩
      · -- the new node points to the old head and is the new one
        have hlinks : BlinkState.links { s.setSlot i
            { toBlinker := user.started, next := s.mp1ListHead } with mp1ListHead := some i } =
              s.links.push i := by
          refine congrArg (Links.mk (some i)) (funext fun j => ?_)
          by_cases hj : j = i
          · subst hj
            simp [BlinkState.links]
          · simp [BlinkState.links, hj]
        rw [BlinkState.links_mp1Poke, hlinks]
        exact h.chain.push hmem
      · -- the slot of the new node is in use now, because its location is not 0
        rw [BlinkState.blinkArray_mp1Poke, List.mem_cons]
        by_cases hj : j = i
        · subst hj
          simpa [Blinker.started] using huser
        · simpa [hj] using h.mem_iff j
      · rw [List.map_cons, h.blinkers]
        refine congrArg₂ List.cons ?_ (List.map_congr_left fun j hj => ?_)
        · simp
        · simp [hother j hj]
      · rw [h.vmem]
        rfl

/-- A node is taken out of the list, and its slot becomes free. -/
theorem remove (h : OnBoard s d l) (arg : Word) :
    ∃ r s', s.mp1IoctlRemove arg = some (r, s') ∧ ∃ l', OnBoard s' (d.step (.remove arg)) l' := by
  have hboard : (d.step (.remove arg)).blinkers =
      (l.eraseP fun i => Board.isAt arg (s.blinkArray i).toBlinker).map fun i =>
        (s.blinkArray i).toBlinker := by
    rw [Board.step, h.blinkers, List.eraseP_map]
    rfl
  rw [BlinkState.mp1IoctlRemove, h.mp1FindHelper_eq]
  cases hfind : l.find? fun i => Board.isAt arg (s.blinkArray i).toBlinker with
  | none =>
    refine ⟨_, _, rfl, l, h.chain, h.mem_iff, ?_, h.vmem⟩
    rw [hboard, List.eraseP_of_forall_not (List.find?_eq_none.mp hfind)]
  | some i =>
    -- the nodes before the one found, and the nodes behind it
    obtain ⟨hat, l₁, l₂, rfl, hfirst⟩ := List.find?_eq_some_iff_append.mp hfind
    have hnodup := h.chain.nodup
    have hbefore : i ∉ l₁ := fun hmem =>
      (List.nodup_append.mp hnodup).2.2 i hmem i List.mem_cons_self rfl
    have hbehind : i ∉ l₂ := (List.nodup_cons.mp (List.nodup_append.mp hnodup).2.1).1
    have hlen := h.length_lt
    have hlink : s.links.findLink i BlinkState.loopLimit none = some l₁.getLast? := by
      rw [Links.findLink_eq none h.chain hbefore]
      · rw [Option.or_none]
      · rw [List.length_append, List.length_cons] at hlen
        omega
    simp only [Option.bind_eq_bind, Option.bind_some, hlink]
    have hother : ∀ j ∈ l₁ ++ l₂, j ≠ i := by
      rintro j hj rfl
      exact (List.mem_append.mp hj).elim hbefore hbehind
    refine ⟨_, _, rfl, l₁ ++ l₂, ?_, fun j => ?_, ?_, ?_⟩
    · -- the chain without the node, whose own pointer is cleared only afterwards
      have hunlink := h.chain.unlink
      rw [← BlinkState.links_storeLink] at hunlink
      exact hunlink.congr fun j hj => by simp [BlinkState.links, BlinkState.mp1Free, hother j hj]
    · by_cases hj : j = i
      · subst hj
        -- the freed slot: it has location 0 and is off the list
        simp [BlinkState.mp1Free, BlinkStruct.zero, hbefore, hbehind]
      · have hmem := h.mem_iff j
        simpa [BlinkState.mp1Free, hj] using hmem
    · -- the board loses the first blinker at the location
      have herase : ((l₁ ++ i :: l₂).eraseP fun i => Board.isAt arg (s.blinkArray i).toBlinker) =
          l₁ ++ l₂ := by
        rw [List.eraseP_append_right _ fun a ha => by simpa using hfirst a ha, List.eraseP_cons,
          hat, cond_true]
      rw [hboard, herase]
      refine List.map_congr_left fun j hj => ?_
      simp [BlinkState.mp1Free, hother j hj]
    · rw [Board.step, h.vmem]
      simp [BlinkState.mp1Free]

/-- The first node with the second location takes over the phase of the first one. -/
theorem sync (h : OnBoard s d l) (arg : Word) :
    ∃ r s', s.mp1IoctlSync arg = some (r, s') ∧ OnBoard s' (d.step (.sync arg)) l := by
  rw [BlinkState.mp1IoctlSync, h.mp1FindHelper_eq, h.mp1FindHelper_eq, Board.step, h.find_blinkers,
    h.find_blinkers]
  cases hsrc : l.find? fun i => Board.isAt (arg >>> 16) (s.blinkArray i).toBlinker with
  -- no node at the first location
  | none => exact ⟨_, _, rfl, h⟩
  | some esi =>
    cases hdst : l.find? fun i => Board.isAt (arg &&& 0xFFFF#32) (s.blinkArray i).toBlinker with
    | none => exact ⟨_, _, rfl, h⟩
    | some edi =>
      set b := (s.blinkArray edi).toBlinker.syncFrom (s.blinkArray esi).toBlinker with hb
      refine ⟨_, _, rfl, ?_, fun j => ?_, ?_, ?_⟩
      · rw [BlinkState.links_mp1Poke, BlinkState.links_setData]
        exact h.chain
      · -- the location is not copied
        rw [h.mem_iff, BlinkState.blinkArray_mp1Poke]
        by_cases hj : j = edi
        · subst hj
          rw [BlinkState.toBlinker_setData_self]
          rfl
        · rw [BlinkState.blinkArray_setData_of_ne _ _ hj]
      · -- the second node is changed, on the board as in the memory
        have hupdate : (fun j => ((s.setData edi b).blinkArray j).toBlinker) =
            Function.update (fun j => (s.blinkArray j).toBlinker) edi b := by
          funext j
          by_cases hj : j = edi
          · subst hj
            simp
          · simp [hj]
        show Board.modifyFirst _ _ d.blinkers =
          l.map fun j => ((s.setData edi b).blinkArray j).toBlinker
        rw [hupdate, h.blinkers]
        exact (Board.modifyFirst_map h.chain.nodup hdst).symm
      · show Board.draw d.vmem _ _ = Function.update s.vmem b.cell b.syncChar
        rw [h.vmem]
        rfl

/-- The tick of every node on the list. -/
theorem tasklet (h : OnBoard s d l) :
    ∃ s', s.mp1RtcTasklet = some s' ∧ OnBoard s' (d.step .tasklet) l := by
  -- the visits keep the pointers, and the list is short enough
  have hrun : s.mp1RtcTasklet = some (l.foldl (fun s i => BlinkState.tickNode i s) s) := by
    refine Links.traverse_eq (fun i s => ?_) h.chain h.length_lt
    exact congrArg Links.next (BlinkState.links_tickNode s i)
  obtain ⟨hlinks, hdata, hvmem⟩ := BlinkState.foldl_tickNode h.chain.nodup s
  refine ⟨_, hrun, ?_, fun i => ?_, ?_, ?_⟩
  · rw [hlinks]
    exact h.chain
  · -- a tick keeps the location
    have hloc : ((l.foldl (fun s i => BlinkState.tickNode i s) s).blinkArray i).location =
        (s.blinkArray i).location := by
      rw [hdata]
      split_ifs
      · exact Blinker.location_tick _
      · rfl
    rw [hloc]
    exact h.mem_iff i
  · show d.blinkers.map Blinker.tick = _
    rw [h.blinkers, List.map_map]
    refine List.map_congr_left fun i hi => ?_
    rw [hdata, if_pos hi]
    rfl
  · show d.blinkers.foldl Board.drawTick d.vmem = _
    rw [h.blinkers, h.vmem, hvmem]

/-- Every call ends, and does to the memory what it does to the board. -/
theorem step (h : OnBoard s d l) {e : BlinkEvent} (hnonzero : AddsNonzero s e) :
    ∃ s', blinkStep s e = some s' ∧ ∃ l', OnBoard s' (d.step e) l' := by
  cases e with
  | add user => exact ⟨_, rfl, h.add hnonzero⟩
  | remove arg =>
    obtain ⟨r, s', hs', hboard⟩ := h.remove arg
    exact ⟨s', by rw [blinkStep, hs', Option.map_some], hboard⟩
  | find user =>
    refine ⟨s, ?_, l, h⟩
    rw [blinkStep, BlinkState.mp1IoctlFind, h.mp1FindHelper_eq]
    cases l.find? fun i => Board.isAt (user.location.setWidth 32) (s.blinkArray i).toBlinker <;> rfl
  | sync arg =>
    obtain ⟨r, s', hs', hboard⟩ := h.sync arg
    exact ⟨s', by rw [blinkStep, hs', Option.map_some], l, hboard⟩
  | tasklet =>
    obtain ⟨s', hs', hboard⟩ := h.tasklet
    exact ⟨s', hs', l, hboard⟩

/-- Every call ends. -/
theorem step_isSome (h : OnBoard s d l) (e : BlinkEvent) : (blinkStep s e).isSome := by
  by_cases hnonzero : AddsNonzero s e
  · obtain ⟨s', hs', -⟩ := h.step hnonzero
    rw [hs', Option.isSome_some]
  · cases e with
    | add user => rfl
    | remove | find | sync | tasklet => exact absurd trivial hnonzero

end OnBoard

/-! ## The list stays a list -/

/-- The list ends, no node of it comes twice, `mp1_malloc` returns none of its nodes, and no call
runs for ever. -/
def ListSound (s : BlinkState) : Prop :=
  (∃ l, s.links.IsChain l ∧ l.Nodup ∧ ∀ i, s.mp1Malloc = some i → i ∉ l) ∧
    ∀ e, (blinkStep s e).isSome

theorem OnBoard.listSound {s : BlinkState} {d : Board} {l : List Slot} (h : OnBoard s d l) :
    ListSound s :=
  ⟨⟨l, h.chain, h.chain.nodup, fun _ hi => h.not_mem_of_mp1Malloc hi⟩, h.step_isSome⟩

/-- A blinker at location 0 is on the list in a slot that `mp1_malloc` returns again. -/
theorem not_listSound_add {s : BlinkState} {user : BlinkStruct} {i : Slot}
    (huser : user.location = 0#16) (hi : s.mp1Malloc = some i) :
    ¬ ListSound (s.mp1IoctlAdd user).2 := by
  have hnew : (s.mp1IoctlAdd user).2 = s.pushed i user := by
    rw [BlinkState.mp1IoctlAdd_eq hi (by rw [huser]; decide)]
  -- every slot has the location it had, so the allocator finds the same one
  have hlocation : ∀ j, ((s.mp1IoctlAdd user).2.blinkArray j).location =
      (s.blinkArray j).location := by
    intro j
    rw [hnew, BlinkState.pushed, BlinkState.blinkArray_mp1Poke]
    by_cases hj : j = i
    · subst hj
      rw [(BlinkState.mp1Malloc_eq_some.mp hi).1]
      simpa [Blinker.started] using huser
    · simp [hj]
  have hagain : (s.mp1IoctlAdd user).2.mp1Malloc = some i := by
    rw [BlinkState.mp1Malloc_eq_some] at hi ⊢
    simpa only [hlocation] using hi
  rintro ⟨⟨l', hchain, -, hfresh⟩, -⟩
  apply hfresh i hagain
  -- the head of the list
  have hhead : (s.mp1IoctlAdd user).2.links.head = some i := by
    rw [hnew]
    rfl
  cases l' with
  | nil =>
    have hnull : (s.mp1IoctlAdd user).2.links.head = none := hchain
    rw [hhead] at hnull
    cases hnull
  | cons j l' =>
    obtain rfl : i = j := Option.some.inj (hhead.symm.trans hchain.1)
    exact List.mem_cons_self

/-- In every run of calls from the empty list the list stays sound exactly when no blinker is added
at location 0 while a slot is free. -/
theorem always_listSound_iff (vmem : Buffer) (es : List BlinkEvent) :
    Always blinkStep ListSound (.start vmem) es ↔
      Along blinkStep AddsNonzero (.start vmem) es := by
  have hstep : ∀ s e s', (∃ d l, OnBoard s d l) → AddsNonzero s e → blinkStep s e = some s' →
      ∃ d l, OnBoard s' d l := by
    rintro s e s' ⟨d, l, h⟩ hnonzero hs'
    obtain ⟨s₁, hs₁, hboard⟩ := h.step hnonzero
    obtain rfl := Option.some.inj (hs₁.symm.trans hs')
    exact ⟨_, hboard⟩
  refine always_iff_along (I := fun s => ∃ d l, OnBoard s d l)
    (fun s ⟨d, l, h⟩ => h.listSound) hstep ?_ ⟨_, _, OnBoard.start vmem⟩
  -- a call that breaks the condition adds at location 0 while a slot is free
  rintro s e - hbreak
  cases e with
  | add user =>
    obtain ⟨huser, hfree⟩ := Classical.not_imp.mp hbreak
    cases hi : s.mp1Malloc with
    | none => exact absurd (BlinkState.mp1Malloc_eq_none.mp hi) hfree
    | some i => exact ⟨_, rfl, not_listSound_add huser hi⟩
  | remove | find | sync | tasklet => exact absurd trivial hbreak

/-- A blinker in the upper left corner of the screen. -/
def cornerBlinker : BlinkStruct :=
  { BlinkStruct.zero with onChar := 0x49#8, offChar := 0x4D#8, onLength := 7#16, offLength := 6#16 }

/-- It is added to the empty list. -/
theorem not_listSound_location_zero :
    ∃ s, exec blinkStep (.start fun _ => 0#8) [.add cornerBlinker] = some s ∧ ¬ ListSound s := by
  have hfree : (BlinkState.start fun _ => 0#8).mp1Malloc = some 0 :=
    BlinkState.mp1Malloc_eq_some.mpr ⟨rfl, fun j hj => absurd hj (Fin.not_lt_zero j)⟩
  exact ⟨_, rfl, not_listSound_add rfl hfree⟩

end Ece391
