import Ece391Os.Fish.BlinkScreen

/-!
# How the blinkers blink

A blinker that has been added is on for `on_length` ticks, then off for `off_length` ticks, and so
on, whatever else is added, removed or synced in the meantime.

* `Blinker.after` is a blinker a number of ticks after its add, and `tick_after` one tick of it.
* `Board.Blinks`: a board has such a blinker, and the page shows its character.
* `vmem_blinks`: in every run of calls, the cell of a blinker shows `on_char` in the first part of
  its period, and `off_char` in the rest.
* `vmem_unchanged`: a run writes in the cells of the blinkers it adds, and nowhere else.
* `exec_shows` puts the two together.
-/

namespace Ece391

open Transition

/-! ## Blinkers -/

namespace Blinker

/-- A phase of the blinker takes as many ticks as its length says: the lengths are positive as the
signed words that the countdown is compared as. -/
structure HasPhases (b : Blinker) : Prop where
  on_pos : 0 < b.onLength.toInt
  off_pos : 0 < b.offLength.toInt

instance (b : Blinker) : Decidable b.HasPhases :=
  decidable_of_iff (0 < b.onLength.toInt ∧ 0 < b.offLength.toInt)
    ⟨fun h => ⟨h.1, h.2⟩, fun h => ⟨h.on_pos, h.off_pos⟩⟩

/-- The number of ticks after which a blinker is as it was. -/
def period (b : Blinker) : ℕ := b.onLength.toNat + b.offLength.toNat

/-- The character `n` ticks after the add. -/
def charAfter (b : Blinker) (n : ℕ) : Byte :=
  if n % b.period < b.onLength.toNat then b.onChar else b.offChar

/-- The blinker `n` ticks after the add. -/
def after (b : Blinker) (n : ℕ) : Blinker :=
  if n % b.period < b.onLength.toNat then
    { b with status := 1#16, countdown := BitVec.ofNat 16 (b.onLength.toNat - n % b.period) }
  else
    { b with status := 0#16, countdown := BitVec.ofNat 16 (b.period - n % b.period) }

variable {b : Blinker}

/-- A positive length is less than 2^15. -/
theorem toNat_of_pos {length : BitVec 16} (h : 0 < length.toInt) :
    0 < length.toNat ∧ length.toNat < 32768 := by
  rw [BitVec.toInt_eq_toNat_cond] at h
  split_ifs at h <;> omega

/-- A countdown goes down by one. -/
theorem countdown_sub_one {m : ℕ} (hm : m < 32768) :
    BitVec.ofNat 16 (m + 1) - 1#16 = BitVec.ofNat 16 m ∧
      (0 < (BitVec.ofNat 16 m).toInt ↔ m ≠ 0) := by
  refine ⟨by rw [BitVec.ofNat_add, BitVec.add_sub_cancel], ?_⟩
  rw [BitVec.toInt_eq_toNat_cond, BitVec.toNat_ofNat, Nat.mod_eq_of_lt (by omega),
    if_pos (by omega)]
  omega

theorem location_after (b : Blinker) (n : ℕ) : (b.after n).location = b.location := by
  rw [after]
  split_ifs <;> rfl

theorem isOn_of_status (h : b.status = 1#16) : b.isOn = true := by
  rw [isOn_eq_getLsbD, h]
  decide

theorem isOff_of_status (h : b.status = 0#16) : ¬ b.isOn = true := by
  rw [isOn_eq_getLsbD, h]
  decide

/-- An add starts the blinker in its first phase. -/
theorem after_zero (h : b.HasPhases) : b.after 0 = b.started := by
  have hpos := (toNat_of_pos h.on_pos).1
  rw [after, Nat.zero_mod, if_pos hpos, Nat.sub_zero, BitVec.ofNat_toNat, BitVec.setWidth_eq]
  rfl

/-- The character of the phase. -/
theorem shown_after (b : Blinker) (n : ℕ) : (b.after n).shown = b.charAfter n := by
  rw [after, charAfter]
  split_ifs
  · exact if_pos (isOn_of_status rfl)
  · exact if_neg (isOff_of_status rfl)

/-- A tick, in a phase or at the end of one. -/
theorem tick_after (h : b.HasPhases) (n : ℕ) : (b.after n).tick = b.after (n + 1) := by
  obtain ⟨honpos, honlt⟩ := toNat_of_pos h.on_pos
  obtain ⟨hoffpos, hofflt⟩ := toNat_of_pos h.off_pos
  have hperiod : b.period = b.onLength.toNat + b.offLength.toNat := rfl
  have hlt : n % b.period < b.period := Nat.mod_lt _ (by omega)
  -- the place in the period goes on by one, or starts again
  have hnext : (n + 1) % b.period =
      if b.period ≤ n % b.period + 1 then 0 else n % b.period + 1 := by
    rw [Nat.add_mod_eq_ite, Nat.mod_eq_of_lt (by omega : 1 < b.period)]
    split_ifs <;> omega
  have hon : BitVec.ofNat 16 b.onLength.toNat = b.onLength := by
    rw [BitVec.ofNat_toNat, BitVec.setWidth_eq]
  have hoff : BitVec.ofNat 16 b.offLength.toNat = b.offLength := by
    rw [BitVec.ofNat_toNat, BitVec.setWidth_eq]
  rw [after, after, hnext]
  generalize n % b.period = place at hlt ⊢
  by_cases hphase : place < b.onLength.toNat
  · -- the blinker is on
    rw [if_pos hphase, if_neg (by omega : ¬ b.period ≤ place + 1)]
    obtain ⟨m, hm⟩ : ∃ m, b.onLength.toNat - place = m + 1 :=
      Nat.exists_eq_succ_of_ne_zero (by omega)
    obtain ⟨hsub, hpos⟩ := countdown_sub_one (by omega : m < 32768)
    rw [tick]
    simp only [hm, hsub, hpos]
    by_cases hend : m = 0
    · -- the last tick of the phase
      have hleft : b.period - (place + 1) = b.offLength.toNat := by omega
      rw [if_neg (not_not.mpr hend), if_neg (by omega : ¬ place + 1 < b.onLength.toNat), hleft,
        hoff]
      exact if_pos (isOn_of_status rfl)
    · have hleft : b.onLength.toNat - (place + 1) = m := by omega
      rw [if_pos hend, if_pos (by omega : place + 1 < b.onLength.toNat), hleft]
  · -- the blinker is off
    rw [if_neg hphase]
    obtain ⟨m, hm⟩ : ∃ m, b.period - place = m + 1 :=
      Nat.exists_eq_succ_of_ne_zero (by omega)
    obtain ⟨hsub, hpos⟩ := countdown_sub_one (by omega : m < 32768)
    rw [tick]
    simp only [hm, hsub, hpos]
    by_cases hend : m = 0
    · -- the last tick of the period
      rw [if_neg (not_not.mpr hend), if_pos (by omega : b.period ≤ place + 1), if_pos honpos,
        Nat.sub_zero, hon]
      exact if_neg (isOff_of_status rfl)
    · have hleft : b.period - (place + 1) = m := by omega
      rw [if_pos hend, if_neg (by omega : ¬ b.period ≤ place + 1),
        if_neg (by omega : ¬ place + 1 < b.onLength.toNat), hleft]

end Blinker

/-! ## The board -/

/-- The call removes the blinker at a location, or syncs it to another one. -/
def Disturbs (location : BitVec 16) : BlinkEvent → Prop
  | .remove arg => arg.setWidth 16 = location
  | .sync arg => (arg &&& 0xFFFF#32).setWidth 16 = location
  | .add _ | .find _ | .tasklet => False

/-- The number of ticks of a call. -/
def BlinkEvent.ticks : BlinkEvent → ℕ
  | .tasklet => 1
  | .add _ | .remove _ | .find _ | .sync _ => 0

/-- The number of ticks of a run. -/
def ticks (es : List BlinkEvent) : ℕ := (es.map BlinkEvent.ticks).sum

namespace Board

open Blinker

variable {d : Board} {b : Blinker} {n a : ℕ} {v : Byte} {e : BlinkEvent}

/-- The board has the blinker `n` ticks after its add, and the page shows its character. -/
structure Blinks (b : Blinker) (n : ℕ) (d : Board) : Prop where
  mem : b.after n ∈ d.blinkers
  vmem : d.vmem b.cell = (b.after n).shown

/-- What is not the first one with a property stays. -/
theorem mem_modifyFirst_of_not {p : Blinker → Bool} {f : Blinker → Blinker} {l : List Blinker}
    (hp : p b = false) (hb : b ∈ l) : b ∈ modifyFirst p f l := by
  induction l with
  | nil => cases hb
  | cons c l ih =>
    rw [modifyFirst]
    rcases List.mem_cons.mp hb with rfl | hb
    · rw [hp, if_neg (by decide)]
      exact List.mem_cons_self
    · split_ifs
      · exact List.mem_cons_of_mem _ hb
      · exact List.mem_cons_of_mem _ (ih hb)

/-- A drawing for a blinker at another location. -/
theorem draw_of_ne {vmem : Buffer} {b' : Blinker} (h : b.location ≠ b'.location) (c : Byte) :
    draw vmem b' c b.cell = vmem b.cell :=
  Function.update_of_ne (fun heq => h (cell_injective heq)) _ _

/-- A newly added blinker. -/
theorem blinks_add {user : BlinkStruct} (hroom : d.blinkers.length < 2000)
    (huser : user.location.toNat < 2000) (hphases : user.HasPhases) :
    (d.step (.add user)).Blinks user.toBlinker 0 := by
  rw [Board.step, if_pos ⟨huser, hroom⟩]
  constructor
  · rw [after_zero hphases]
    exact List.mem_cons_self
  · rw [after_zero hphases, shown_started]
    exact Function.update_self _ _ _

/-- A call that does not disturb the blinker. -/
theorem Blinks.step (h : d.Blinks b n) (hphases : b.HasPhases) (hdistinct : d.Distinct)
    (hadd : ∀ user, e = .add user → ∀ b ∈ d.blinkers, b.location ≠ user.location)
    (hdisturb : ¬ Disturbs b.location e) : (d.step e).Blinks b (n + e.ticks) := by
  have hcell : (b.after n).cell = b.cell := by rw [cell, location_after, cell]
  cases e with
  | add user =>
    show Blinks b n _
    rw [Board.step]
    split_ifs
    · refine ⟨List.mem_cons_of_mem _ h.mem, ?_⟩
      have hne := hadd user rfl _ h.mem
      rw [location_after] at hne
      -- the add draws in another cell
      exact (draw_of_ne hne _).trans h.vmem
    · exact h
  | remove arg =>
    refine ⟨?_, h.vmem⟩
    refine (List.mem_eraseP_of_neg ?_).mpr h.mem
    rw [isAt, location_after, beq_iff_eq]
    exact fun heq => hdisturb heq.symm
  | find user => exact h
  | sync arg =>
    have hnot : isAt (arg &&& 0xFFFF#32) (b.after n) = false := by
      rw [isAt, location_after, beq_eq_false_iff_ne]
      exact fun heq => hdisturb heq.symm
    show Blinks b n _
    rw [Board.step]
    split
    · rename_i src b' hsrc hb'
      refine ⟨mem_modifyFirst_of_not hnot h.mem, ?_⟩
      have hne : b.location ≠ b'.location := by
        intro heq
        have hat := List.find?_some hb'
        rw [isAt, beq_iff_eq] at hat
        exact hdisturb (hat.symm.trans heq.symm)
      -- the sync draws in the cell of its second blinker
      exact (draw_of_ne hne _).trans h.vmem
    · exact h
  | tasklet =>
    show Blinks b (n + 1) _
    rw [Board.step]
    constructor
    · rw [← tick_after hphases]
      exact List.mem_map_of_mem h.mem
    · show d.blinkers.foldl drawTick d.vmem b.cell = _
      rw [← hcell, foldl_drawTick hdistinct h.mem, hcell, h.vmem, ← tick_after hphases, shown_tick]

/-- A blinker after a call was there before at the same location, or is the one that is added. -/
theorem location_step (hb : b ∈ (d.step e).blinkers) :
    (∃ c ∈ d.blinkers, c.location = b.location) ∨
      ∃ user, e = .add user ∧ user.location = b.location := by
  cases e with
  | add user =>
    rw [Board.step] at hb
    split_ifs at hb
    · rcases List.mem_cons.mp hb with rfl | hb
      · exact Or.inr ⟨user, rfl, rfl⟩
      · exact Or.inl ⟨b, hb, rfl⟩
    · exact Or.inl ⟨b, hb, rfl⟩
  | remove arg => exact Or.inl ⟨b, List.eraseP_sublist.subset hb, rfl⟩
  | find user => exact Or.inl ⟨b, hb, rfl⟩
  | sync arg =>
    refine Or.inl ?_
    rw [Board.step] at hb
    split at hb
    · -- a sync moves no blinker
      rename_i src b' hsrc hb'
      have hsame : (modifyFirst (isAt (arg &&& 0xFFFF#32)) (·.syncFrom src) d.blinkers).map
          Blinker.location = d.blinkers.map Blinker.location := map_modifyFirst fun b => rfl
      exact List.mem_map.mp (hsame ▸ List.mem_map_of_mem hb)
    · exact ⟨b, hb, rfl⟩
  | tasklet =>
    obtain ⟨c, hc, rfl⟩ := List.mem_map.mp hb
    exact Or.inl ⟨c, hc, (location_tick c).symm⟩

/-- The ticks draw in the cells of the blinkers. -/
theorem foldl_drawTick_apply {l : List Blinker} (hl : ∀ c ∈ l, c.cell ≠ a) (vmem : Buffer) :
    l.foldl drawTick vmem a = vmem a := by
  induction l generalizing vmem with
  | nil => rfl
  | cons c l ih =>
    rw [List.foldl_cons, ih fun b hb => hl b (List.mem_cons_of_mem c hb), drawTick]
    cases c.tickChar with
    | none => rfl
    | some ch => exact Function.update_of_ne (hl c List.mem_cons_self).symm _ _

/-- A call draws in the cells of the blinkers, and of the one that is added. -/
theorem vmem_step (hcell : ∀ b ∈ d.blinkers, b.cell ≠ a)
    (hadd : ∀ user, e = .add user → user.cell ≠ a) : (d.step e).vmem a = d.vmem a := by
  cases e with
  | add user =>
    rw [Board.step]
    split_ifs
    · exact Function.update_of_ne (hadd user rfl).symm _ _
    · rfl
  | remove arg => rfl
  | find user => rfl
  | sync arg =>
    rw [Board.step]
    split
    · rename_i src b' hsrc hb'
      exact Function.update_of_ne (hcell b' (List.mem_of_find?_eq_some hb')).symm _ _
    · rfl
  | tasklet => exact foldl_drawTick_apply hcell d.vmem

/-- The blinkers are at locations of the screen. -/
def OnScreen (d : Board) : Prop := ∀ b ∈ d.blinkers, b.location ≠ 0#16 ∧ b.location.toNat < 2000

theorem OnScreen.step (h : d.OnScreen)
    (hadd : ∀ user, e = .add user → user.location ≠ 0#16 ∧ user.location.toNat < 2000) :
    (d.step e).OnScreen := by
  intro b hb
  rcases location_step hb with ⟨c, hc, heq⟩ | ⟨user, he, heq⟩
  · exact heq ▸ h c hc
  · exact heq ▸ hadd user he

/-- At different locations of the screen there are less blinkers than slots. -/
theorem OnScreen.length_lt (h : d.OnScreen) (hdistinct : d.Distinct) :
    d.blinkers.length < 2000 := by
  have hnodup : (d.blinkers.map fun b => b.location.toNat).Nodup := by
    have hmap := List.Nodup.map (f := BitVec.toNat)
      (fun x y (heq : x.toNat = y.toNat) => BitVec.eq_of_toNat_eq heq) hdistinct
    rwa [List.map_map] at hmap
  have hsub : (d.blinkers.map fun b => b.location.toNat).toFinset ⊆
      (Finset.range 2000).erase 0 := by
    intro m hm
    obtain ⟨b, hb, rfl⟩ := List.mem_map.mp (List.mem_toFinset.mp hm)
    have hpos : b.location.toNat ≠ 0 := fun heq => (h b hb).1 (BitVec.eq_of_toNat_eq heq)
    exact Finset.mem_erase.mpr ⟨hpos, Finset.mem_range.mpr (h b hb).2⟩
  have hcard := Finset.card_le_card hsub
  rw [List.toFinset_card_of_nodup hnodup, List.length_map,
    Finset.card_erase_of_mem (Finset.mem_range.mpr (by decide)), Finset.card_range] at hcard
  omega

/-- No blinker is drawn at the offset, and it holds a byte. -/
structure Clear (a : ℕ) (v : Byte) (d : Board) : Prop where
  cell_ne : ∀ b ∈ d.blinkers, b.cell ≠ a
  vmem : d.vmem a = v

/-- A call that adds no blinker there. -/
theorem Clear.step (h : d.Clear a v) (hadd : ∀ user, e = .add user → user.cell ≠ a) :
    (d.step e).Clear a v := by
  refine ⟨fun b hb => ?_, (vmem_step h.cell_ne hadd).trans h.vmem⟩
  rcases location_step hb with ⟨c, hc, heq⟩ | ⟨user, he, heq⟩
  · rw [cell, ← heq]
    exact h.cell_ne c hc
  · rw [cell, ← heq]
    exact hadd user he

end Board

/-! ## Runs -/

section

variable {s s' : BlinkState} {vmem : Buffer} {user : BlinkStruct} {e : BlinkEvent}
  {es before later : List BlinkEvent} {n a : ℕ} {v : Byte} {b : Blinker}

/-- A call ends. -/
theorem Holds.exists_step {P : Board → Prop} (h : Holds P s) (hadd : AddsDistinct s e) :
    ∃ s', blinkStep s e = some s' := by
  obtain ⟨d, l, hboard, -⟩ := h
  obtain ⟨s', hs', -⟩ := hboard.step (OnBoard.addsNonzero hadd)
  exact ⟨s', hs'⟩

/-- The blinkers stay on the screen. -/
theorem Holds.step_onScreen (h : Holds Board.OnScreen s) (hadd : AddsDistinct s e)
    (hs' : blinkStep s e = some s') : Holds Board.OnScreen s' := by
  refine h.step hadd hs' fun d l _ _ hscreen => hscreen.step ?_
  rintro user rfl
  exact ⟨hadd.1, hadd.2.1⟩

/-- A run that adds blinkers at different locations ends. -/
theorem Holds.exists_exec (h : Holds Board.OnScreen s) (hadds : Along blinkStep AddsDistinct s es) :
    ∃ s', exec blinkStep s es = some s' ∧ Holds Board.OnScreen s' := by
  induction es generalizing s with
  | nil => exact ⟨s, rfl, h⟩
  | cons e es ih =>
    obtain ⟨s₁, hs₁⟩ := h.exists_step hadds.1
    obtain ⟨s', hs', h'⟩ := ih (h.step_onScreen hadds.1 hs₁) (hadds.2 s₁ hs₁)
    exact ⟨s', (exec_cons_of_eq hs₁).trans hs', h'⟩

/-- The blinker blinks through a run that does not disturb it. -/
theorem Holds.blinks_exec (h : Holds (Board.Blinks b n) s) (hphases : b.HasPhases)
    (hadds : Along blinkStep AddsDistinct s es) (hdisturb : ∀ e ∈ es, ¬ Disturbs b.location e)
    (hrun : exec blinkStep s es = some s') : Holds (Board.Blinks b (n + ticks es)) s' := by
  induction es generalizing s n with
  | nil =>
    cases hrun
    exact h
  | cons e es ih =>
    obtain ⟨s₁, hs₁, hrun⟩ := exec_cons_eq_some.mp hrun
    have h₁ : Holds (Board.Blinks b (n + e.ticks)) s₁ := by
      refine h.step hadds.1 hs₁ fun d l hboard hdistinct hblinks => ?_
      exact hblinks.step hphases hdistinct (hboard.location_ne hadds.1)
        (hdisturb e List.mem_cons_self)
    have h' := ih h₁ (hadds.2 s₁ hs₁) (fun e he => hdisturb e (List.mem_cons_of_mem _ he)) hrun
    rwa [Nat.add_assoc] at h'

/-- Calls that add nothing. -/
theorem along_of_no_add (h : ∀ e ∈ es, ∀ user, e ≠ .add user) (s : BlinkState) :
    Along blinkStep AddsDistinct s es := by
  refine (along_of_forall h s).mono fun s e hno => ?_
  cases e with
  | add user => exact absurd rfl (hno user)
  | remove | find | sync | tasklet => trivial

/-- In every run of calls that adds blinkers at different locations, the cell of each blinker shows
`on_char` for the first `on_length` ticks of its period and `off_char` for the rest, from its add
on, until it is itself removed or synced to another one. -/
theorem vmem_blinks
    (hadds : Along blinkStep AddsDistinct (.start vmem) (before ++ .add user :: later))
    (hphases : user.HasPhases) (hdisturb : ∀ e ∈ later, ¬ Disturbs user.location e) :
    ∃ s', exec blinkStep (.start vmem) (before ++ .add user :: later) = some s' ∧
      s'.vmem user.cell = user.charAfter (ticks later) := by
  have hstart : Holds Board.OnScreen (.start vmem) :=
    Holds.start fun b hb => absurd hb List.not_mem_nil
  obtain ⟨s, hs, hscreen⟩ := hstart.exists_exec (hadds.of_prefix (List.prefix_append _ _))
  have hadd := hadds.of_exec hs
  -- the add of the blinker
  obtain ⟨s₁, hs₁⟩ := hscreen.exists_step hadd.1
  have hblinks : Holds (Board.Blinks user.toBlinker 0) s₁ := by
    refine hscreen.step hadd.1 hs₁ fun d l _ hdistinct hscreen => ?_
    exact Board.blinks_add (hscreen.length_lt hdistinct) hadd.1.2.1 hphases
  obtain ⟨s', hs', -⟩ := (hscreen.step_onScreen hadd.1 hs₁).exists_exec (hadd.2 s₁ hs₁)
  obtain ⟨d', l', hboard', -, hblinks'⟩ :=
    hblinks.blinks_exec hphases (hadd.2 s₁ hs₁) hdisturb hs'
  refine ⟨s', ?_, ?_⟩
  · rw [exec_append, hs, Option.bind_some, exec_cons_of_eq hs₁, hs']
  · rw [← hboard'.vmem, hblinks'.vmem, Blinker.shown_after, Nat.zero_add]

/-- A run writes in the cells of the blinkers that it adds, and nowhere else. -/
theorem vmem_unchanged (hadds : Along blinkStep AddsDistinct (.start vmem) es)
    (hcell : ∀ user, .add user ∈ es → user.cell ≠ a)
    (hrun : exec blinkStep (.start vmem) es = some s') : s'.vmem a = vmem a := by
  have hclear : Holds (Board.Clear a (vmem a)) (.start vmem) :=
    Holds.start ⟨fun b hb => absurd hb List.not_mem_nil, rfl⟩
  have hevents : Along blinkStep (fun s e => AddsDistinct s e ∧
      ∀ user, e = .add user → user.cell ≠ a) (.start vmem) es := by
    refine hadds.and (along_of_forall (fun e he user heq => hcell user ?_) _)
    exact heq ▸ he
  obtain ⟨d, l, hboard, -, hclear'⟩ := exec_invariant
    (fun s e s' h hP hs' => h.step hP.1 hs' fun d l _ _ hclear => hclear.step hP.2)
    hclear hevents hrun
  rw [← hboard.vmem, hclear'.vmem]

/-- The screen in every run of calls that adds blinkers at different locations: the cell of a
blinker follows its period from its add on, until it is itself removed or synced to another one, and
a place that is no blinker's cell stays as it was. -/
theorem exec_shows
    (hadds : Along blinkStep AddsDistinct (.start vmem) (before ++ .add user :: later))
    (hphases : user.HasPhases) (hdisturb : ∀ e ∈ later, ¬ Disturbs user.location e) :
    ∃ s', exec blinkStep (.start vmem) (before ++ .add user :: later) = some s' ∧
      s'.vmem user.cell = user.charAfter (ticks later) ∧
      ∀ a, (∀ other, .add other ∈ before ++ .add user :: later → other.cell ≠ a) →
        s'.vmem a = vmem a := by
  obtain ⟨s', hs', hblinks⟩ := vmem_blinks hadds hphases hdisturb
  exact ⟨s', hs', hblinks, fun a hcell => vmem_unchanged hadds hcell hs'⟩

end

/-- A blinker is ticked, and another one is synced to it. -/
theorem exec_shows_sample :
    ∃ s', exec blinkStep (.start fun _ => 0#8)
        ([.add (sampleBlinker 100#16)] ++ .add (sampleBlinker 200#16) ::
          [.tasklet, .sync 0x00C80064#32, .tasklet]) = some s' ∧
      s'.vmem (sampleBlinker 200#16).cell = (sampleBlinker 200#16).charAfter 2 ∧
      s'.vmem 202 = 0#8 := by
  have hadds : Along blinkStep AddsDistinct (.start fun _ => 0#8)
      ([.add (sampleBlinker 100#16)] ++ .add (sampleBlinker 200#16) ::
        [.tasklet, .sync 0x00C80064#32, .tasklet]) := by
    refine ⟨by decide, fun s hs => ?_⟩
    obtain rfl := Option.some.inj (BrightSync.step_first.symm.trans hs)
    exact ⟨by decide, fun s _ => along_of_no_add (by simp) s⟩
  obtain ⟨s', hs', hblinks, hkept⟩ :=
    exec_shows hadds (by decide) (by simp [Disturbs, sampleBlinker])
  exact ⟨s', hs', hblinks, hkept 202 (by simp [Blinker.cell, sampleBlinker])⟩

end Ece391
