import Ece391Os.Fish.BlinkList

/-!
# What the blinkers show

Add, tick and sync draw a blinker's character, each by its own code. Add and tick draw the character
of the new phase. Sync draws `off_char` whatever the phase is, because `cmovl` never moves after
`testb`.

* `Blinker.shown` is the character of a blinker's phase, and `Board.Shows` says that the page shows
  it for every blinker of a board.
* `SamePhase`: two blinkers are on or off together, at every later tick too.
* `screenShows_and_syncsLast_iff`: in every run the screen shows the blinkers, and synced blinkers
  stay together, exactly when no blinker is synced to one that is on, unless its two characters are
  equal. `not_screenShows_after_sync` is such a sync.
-/

namespace Ece391

open Transition

/-! ## Blinkers -/

namespace Blinker

/-- The character of the phase a blinker is in. -/
def shown (b : Blinker) : Byte := if b.isOn then b.onChar else b.offChar

/-- Two blinkers are in the same phase, and will be after the same number of ticks. -/
structure SamePhase (b b' : Blinker) : Prop where
  status : b.status = b'.status
  countdown : b.countdown = b'.countdown
  onLength : b.onLength = b'.onLength
  offLength : b.offLength = b'.offLength

variable (b b' src : Blinker)

theorem isOn_eq_getLsbD : b.isOn = b.status.getLsbD 0 := by
  have hbit : (b.status &&& 1#16 = 0#16) ↔ b.status.getLsbD 0 = false := by
    rw [BitVec.and_one_eq_setWidth_ofBool_getLsbD]
    cases b.status.getLsbD 0 <;> simp
  rw [isOn, Bool.eq_iff_iff, decide_eq_true_iff, ne_eq, hbit, Bool.not_eq_false]

/-- A tick draws the character of a new phase, and nothing in an old one. -/
theorem shown_tick : b.tick.shown = b.tickChar.getD b.shown := by
  -- the `xor` of the status flips the phase
  have hflip : (b.status ^^^ 1#16).getLsbD 0 = !b.isOn := by
    rw [BitVec.getLsbD_xor, isOn_eq_getLsbD]
    exact Bool.xor_true _
  rw [shown, isOn_eq_getLsbD, tick, tickChar]
  by_cases hcount : 0 < (b.countdown - 1#16).toInt
  · -- the phase goes on, and nothing is drawn
    rw [if_pos hcount, if_pos hcount, Option.getD_none, shown, isOn_eq_getLsbD]
  · -- a new phase: on becomes off, off becomes on
    rw [if_neg hcount, if_neg hcount]
    cases hon : b.isOn with
    | true =>
      rw [hon] at hflip
      simp only [if_true, hflip, Bool.not_true, Bool.false_eq_true, if_false, Option.getD_some]
    | false =>
      rw [hon] at hflip
      simp only [if_true, hflip, Bool.not_false, Bool.false_eq_true, if_false, Option.getD_some]

/-- `sync_display` draws `off_char` always. -/
theorem syncChar_eq : b.syncChar = b.offChar := by
  -- only bit 0 is left by `testb`, so the sign is clear
  have hsign : (b.status.setWidth 8 &&& 1#8).msb = false := by simp [BitVec.msb_and]
  rw [syncChar, hsign]
  rfl

theorem shown_started : b.started.shown = b.onChar := by
  have hbit : (1#16 : BitVec 16).getLsbD 0 = true := by decide
  rw [shown, isOn_eq_getLsbD]
  exact if_pos hbit

theorem shown_syncFrom : (b.syncFrom src).shown = if src.isOn then b.onChar else b.offChar := rfl

/-- A blinker that takes over the phase of another one. -/
theorem samePhase_syncFrom : SamePhase src (b.syncFrom src) := ⟨rfl, rfl, rfl, rfl⟩

variable {b b'} in
theorem SamePhase.tick (h : SamePhase b b') : SamePhase b.tick b'.tick := by
  have hon : b.isOn = b'.isOn := by rw [isOn, isOn, h.status]
  rw [Blinker.tick, Blinker.tick, hon, h.countdown]
  split_ifs
  · exact ⟨h.status, rfl, h.onLength, h.offLength⟩
  · exact ⟨by rw [h.status], h.offLength, h.onLength, h.offLength⟩
  · exact ⟨by rw [h.status], h.onLength, h.onLength, h.offLength⟩

end Blinker

/-! ## The board -/

namespace Board

open Blinker

variable {d : Board} {p q : Blinker → Bool} {f : Blinker → Blinker} {l : List Blinker}
  {b b' : Blinker} {arg arg' : Word}

/-- The blinkers are at different locations. -/
def Distinct (d : Board) : Prop := (d.blinkers.map Blinker.location).Nodup

/-- The page shows the phase of every blinker. -/
def Shows (d : Board) : Prop := ∀ b ∈ d.blinkers, d.vmem b.cell = b.shown

/-- The blinkers at the two locations of a sync are there, and in the same phase. -/
def InPhase (arg : Word) (d : Board) : Prop :=
  ∃ b b', d.blinkers.find? (isAt (arg >>> 16)) = some b ∧
    d.blinkers.find? (isAt (arg &&& 0xFFFF#32)) = some b' ∧ SamePhase b b'

theorem isAt_congr (h : b.location = b'.location) : isAt arg b = isAt arg b' := by
  rw [isAt, isAt, h]

/-- Two locations. -/
theorem isAt_of_ne (hne : arg.setWidth 16 ≠ arg'.setWidth 16) (h : isAt arg b = true) :
    isAt arg' b = false := by
  rw [isAt, beq_iff_eq] at h
  rw [isAt, h]
  simpa using hne

theorem cell_injective (h : b.cell = b'.cell) : b.location = b'.location := by
  rw [cell, cell] at h
  exact BitVec.eq_of_toNat_eq (by omega)

section Lists

theorem find?_modifyFirst_self (h : ∀ b, p (f b) = p b) :
    (modifyFirst p f l).find? p = (l.find? p).map f := by
  induction l with
  | nil => rfl
  | cons b l ih =>
    rw [modifyFirst, List.find?_cons]
    by_cases hb : p b = true
    · simp [hb, h]
    · simp [hb, ih]

theorem find?_modifyFirst_of_disjoint (h : ∀ b, p b = true → q b = false ∧ q (f b) = false) :
    (modifyFirst p f l).find? q = l.find? q := by
  induction l with
  | nil => rfl
  | cons b l ih =>
    rw [modifyFirst, List.find?_cons]
    by_cases hb : p b = true
    · simp [hb, h b hb]
    · simp [hb, List.find?_cons, ih]

theorem find?_eraseP_of_disjoint (h : ∀ b, p b = true → q b = false) :
    (l.eraseP p).find? q = l.find? q := by
  induction l with
  | nil => rfl
  | cons b l ih =>
    rw [List.eraseP_cons, List.find?_cons]
    by_cases hb : p b = true
    · simp [hb, h b hb]
    · simp [hb, List.find?_cons, ih]

theorem map_modifyFirst {α : Type} {g : Blinker → α} (h : ∀ b, g (f b) = g b) :
    (modifyFirst p f l).map g = l.map g := by
  induction l with
  | nil => rfl
  | cons b l ih =>
    rw [modifyFirst]
    split_ifs
    · rw [List.map_cons, List.map_cons, h]
    · rw [List.map_cons, List.map_cons, ih]

/-- An element of a modified list is the new one, or an old one at another location. -/
theorem mem_modifyFirst (hl : (l.map Blinker.location).Nodup) (hfind : l.find? p = some b)
    (h : b' ∈ modifyFirst p f l) : b' = f b ∨ b' ∈ l ∧ b'.location ≠ b.location := by
  induction l with
  | nil => cases hfind
  | cons c l ih =>
    obtain ⟨hc, hl⟩ := List.nodup_cons.mp hl
    rw [List.find?_cons] at hfind
    rw [modifyFirst] at h
    by_cases hp : p c = true
    · rw [hp] at hfind
      obtain rfl := Option.some.inj hfind
      rw [if_pos hp] at h
      rcases List.mem_cons.mp h with rfl | h
      · -- the element that is replaced
        exact Or.inl rfl
      · -- an element behind it
        refine Or.inr ⟨List.mem_cons_of_mem c h, fun heq => hc ?_⟩
        exact heq ▸ List.mem_map_of_mem h
    · rw [Bool.not_eq_true] at hp
      rw [hp] at hfind
      rw [if_neg (by simp [hp])] at h
      rcases List.mem_cons.mp h with rfl | h
      · -- an element before it
        refine Or.inr ⟨List.mem_cons_self, fun heq => hc ?_⟩
        exact heq ▸ List.mem_map_of_mem (List.mem_of_find?_eq_some hfind)
      · rcases ih hl hfind h with rfl | ⟨hmem, hne⟩
        · exact Or.inl rfl
        · exact Or.inr ⟨List.mem_cons_of_mem c hmem, hne⟩

theorem mem_modifyFirst_self (hfind : l.find? p = some b) : f b ∈ modifyFirst p f l := by
  induction l with
  | nil => cases hfind
  | cons c l ih =>
    rw [List.find?_cons] at hfind
    rw [modifyFirst]
    cases hp : p c with
    | true =>
      rw [hp] at hfind
      obtain rfl := Option.some.inj hfind
      exact List.mem_cons_self
    | false =>
      rw [hp] at hfind
      exact List.mem_cons_of_mem c (ih hfind)

/-- Blinkers at other locations do not draw in a cell. -/
theorem foldl_drawTick_of_ne {vmem : Buffer} (h : ∀ b' ∈ l, b'.location ≠ b.location) :
    l.foldl drawTick vmem b.cell = vmem b.cell := by
  induction l generalizing vmem with
  | nil => rfl
  | cons c l ih =>
    rw [List.foldl_cons, ih fun b' hb' => h b' (List.mem_cons_of_mem c hb'), drawTick]
    cases c.tickChar with
    | none => rfl
    | some ch =>
      refine Function.update_of_ne (fun heq => ?_) _ _
      exact h c List.mem_cons_self (cell_injective heq).symm

/-- After a tick the cell of a blinker holds what it has drawn. -/
theorem foldl_drawTick {vmem : Buffer} (hl : (l.map Blinker.location).Nodup) (hb : b ∈ l) :
    l.foldl drawTick vmem b.cell = b.tickChar.getD (vmem b.cell) := by
  induction l generalizing vmem with
  | nil => cases hb
  | cons c l ih =>
    obtain ⟨hc, hl⟩ := List.nodup_cons.mp hl
    rw [List.foldl_cons]
    by_cases hbc : b = c
    · -- the blinker draws, and none of the rest draws over it
      subst hbc
      rw [foldl_drawTick_of_ne fun b' hb' heq => hc (heq ▸ List.mem_map_of_mem hb'), drawTick]
      cases b.tickChar with
      | none => rfl
      | some ch => exact Function.update_self _ _ _
    · have hmem : b ∈ l := (List.mem_cons.mp hb).resolve_left hbc
      rw [ih hl hmem, drawTick]
      cases c.tickChar with
      | none => rfl
      | some ch =>
        -- another blinker has drawn before, in another cell
        have hcell : b.cell ≠ c.cell := fun heq =>
          hc (cell_injective heq ▸ List.mem_map_of_mem hmem)
        rw [Option.elim_some, draw, Function.update_of_ne hcell]

end Lists

/-! ## What a call does to the board -/

theorem Distinct.congr {d' : Board} (h : d.Distinct)
    (hsame : d'.blinkers.map Blinker.location = d.blinkers.map Blinker.location) :
    d'.Distinct := by
  rw [Distinct, hsame]
  exact h

theorem Distinct.step (h : d.Distinct) {e : BlinkEvent}
    (hadd : ∀ user, e = .add user → ∀ b ∈ d.blinkers, b.location ≠ user.location) :
    (d.step e).Distinct := by
  cases e with
  | add user =>
    rw [Board.step]
    split_ifs
    · refine List.nodup_cons.mpr ⟨fun hmem => ?_, h⟩
      obtain ⟨b, hb, heq⟩ := List.mem_map.mp hmem
      -- the new location is not on the list
      exact hadd user rfl b hb heq
    · exact h
  | remove arg => exact List.Nodup.sublist (List.eraseP_sublist.map _) h
  | find user => exact h
  | sync arg =>
    rw [Board.step]
    split
    · rename_i src b hsrc hb
      -- a sync copies no location
      have hsame : (modifyFirst (isAt (arg &&& 0xFFFF#32)) (·.syncFrom src) d.blinkers).map
          Blinker.location = d.blinkers.map Blinker.location := map_modifyFirst fun b => rfl
      exact h.congr hsame
    · exact h
  | tasklet =>
    -- a tick keeps all locations
    have hsame : (d.blinkers.map Blinker.tick).map Blinker.location =
        d.blinkers.map Blinker.location := by
      rw [List.map_map]
      exact List.map_congr_left fun b _ => location_tick b
    exact h.congr hsame

/-- The page goes on showing the blinkers: `hdark` says that a sync takes over no phase in which the
character it draws would be wrong. -/
theorem Shows.step (h : d.Shows) (hdistinct : d.Distinct) {e : BlinkEvent}
    (hadd : ∀ user, e = .add user → ∀ b ∈ d.blinkers, b.location ≠ user.location)
    (hdark : ∀ arg, e = .sync arg → ∀ src ∈ d.blinkers.find? (isAt (arg >>> 16)),
      ∀ b ∈ d.blinkers.find? (isAt (arg &&& 0xFFFF#32)),
        src.isOn = false ∨ b.onChar = b.offChar) : (d.step e).Shows := by
  cases e with
  | add user =>
    rw [Board.step]
    split_ifs
    · rintro b hb
      rcases List.mem_cons.mp hb with rfl | hb
      · -- the new blinker is on, and the add draws its `on_char`
        exact (Function.update_self _ _ _).trans (shown_started _).symm
      · -- the add draws in no cell of another blinker
        rw [← h b hb]
        exact Function.update_of_ne (fun heq => hadd user rfl b hb (cell_injective heq)) _ _
    · exact h
  | remove arg => exact fun b hb => h b (List.eraseP_sublist.subset hb)
  | find user => exact h
  | sync arg =>
    rw [Board.step]
    split
    · rename_i src b hsrc hb
      intro b' hb'
      show draw d.vmem b _ b'.cell = b'.shown
      rcases mem_modifyFirst hdistinct hb hb' with rfl | ⟨hmem, hne⟩
      · -- the cell of the second blinker
        have hcell : (b.syncFrom src).cell = b.cell := rfl
        rw [hcell, draw, Function.update_self, syncChar_eq, shown_syncFrom]
        rcases hdark arg rfl src (by rw [hsrc]; rfl) b (by rw [hb]; rfl) with hoff | hsame
        · simp [hoff, syncFrom]
        · simp [hsame, syncFrom]
      · -- the cell of another blinker
        rw [draw, Function.update_of_ne fun heq => hne (cell_injective heq)]
        exact h b' hmem
    · exact h
  | tasklet =>
    intro b' hb'
    obtain ⟨b, hb, rfl⟩ := List.mem_map.mp hb'
    -- a tick draws the new phase of every blinker, in its own cell
    have hcell : b.tick.cell = b.cell := by rw [cell, location_tick, cell]
    show d.blinkers.foldl drawTick d.vmem b.tick.cell = b.tick.shown
    rw [hcell, foldl_drawTick hdistinct hb, shown_tick, h b hb]

/-- After a sync with a blinker that is on, the page shows the character of the other phase. -/
theorem not_shows_sync {src : Blinker} (hsrc : d.blinkers.find? (isAt (arg >>> 16)) = some src)
    (hb : d.blinkers.find? (isAt (arg &&& 0xFFFF#32)) = some b) (hon : src.isOn = true)
    (hne : b.onChar ≠ b.offChar) : ¬ (d.step (.sync arg)).Shows := by
  rw [Board.step, hsrc, hb]
  intro hshows
  have hcell : draw d.vmem b (b.syncFrom src).syncChar b.cell = (b.syncFrom src).shown :=
    hshows (b.syncFrom src) (mem_modifyFirst_self hb)
  rw [draw, Function.update_self, syncChar_eq, shown_syncFrom, if_pos hon] at hcell
  exact hne hcell.symm

end Board

/-- The call syncs or removes one of the blinkers that a sync names. -/
def Touches (arg : Word) : BlinkEvent → Prop
  | .remove a => ∃ y ∈ [arg >>> 16, arg &&& 0xFFFF#32], a.setWidth 16 = y.setWidth 16
  | .sync a => ∃ x ∈ [a >>> 16, a &&& 0xFFFF#32], ∃ y ∈ [arg >>> 16, arg &&& 0xFFFF#32],
      x.setWidth 16 = y.setWidth 16
  | .add _ | .find _ | .tasklet => False

namespace Board

variable {d : Board} {arg : Word}

/-- A sync that finds both blinkers puts them in the same phase. -/
theorem inPhase_sync {src b : Blinker} (hsrc : d.blinkers.find? (isAt (arg >>> 16)) = some src)
    (hb : d.blinkers.find? (isAt (arg &&& 0xFFFF#32)) = some b) :
    InPhase arg (d.step (.sync arg)) := by
  have hstep : (d.step (.sync arg)).blinkers =
      modifyFirst (isAt (arg &&& 0xFFFF#32)) (·.syncFrom src) d.blinkers := by
    rw [step, hsrc, hb]
  have hself := find?_modifyFirst_self (p := isAt (arg &&& 0xFFFF#32)) (l := d.blinkers)
    (f := (·.syncFrom src)) fun b => rfl
  rw [hb, Option.map_some] at hself
  rw [InPhase, hstep]
  by_cases hne : (arg &&& 0xFFFF#32).setWidth 16 = (arg >>> 16).setWidth 16
  · -- the same location twice
    have hsame : isAt (arg >>> 16) = isAt (arg &&& 0xFFFF#32) := by
      funext b
      rw [isAt, isAt, hne]
    rw [hsame]
    exact ⟨_, _, hself, hself, ⟨rfl, rfl, rfl, rfl⟩⟩
  · refine ⟨src, _, (find?_modifyFirst_of_disjoint fun b hat => ?_).trans hsrc, hself,
      Blinker.samePhase_syncFrom b src⟩
    exact ⟨isAt_of_ne hne hat, isAt_of_ne hne hat⟩

/-- Other calls leave two blinkers in the same phase, a tick moves both. -/
theorem InPhase.step (h : d.InPhase arg) {e : BlinkEvent} (htouch : ¬ Touches arg e)
    (hadd : ∀ user, e = .add user → ∀ b ∈ d.blinkers, b.location ≠ user.location) :
    (d.step e).InPhase arg := by
  obtain ⟨b, b', hb, hb', hphase⟩ := h
  -- a call that keeps what the searches for the two locations find
  have hkeep : ∀ d' : Board,
      (∀ y ∈ [arg >>> 16, arg &&& 0xFFFF#32],
        d'.blinkers.find? (isAt y) = d.blinkers.find? (isAt y)) → d'.InPhase arg := by
    intro d' hsame
    refine ⟨b, b', ?_, ?_, hphase⟩
    · rw [hsame _ (by simp), hb]
    · rw [hsame _ (by simp), hb']
  cases e with
  | add user =>
    rw [Board.step]
    split_ifs
    · refine hkeep _ fun y hy => ?_
      -- a location of the sync is taken, so the new blinker is at another one
      have hold : ∃ b ∈ d.blinkers, isAt y b = true := by
        rcases List.mem_pair.mp hy with rfl | rfl
        · exact ⟨b, List.mem_of_find?_eq_some hb, List.find?_some hb⟩
        · exact ⟨b', List.mem_of_find?_eq_some hb', List.find?_some hb'⟩
      obtain ⟨c, hc, hat⟩ := hold
      have hnew : isAt y user.started = false := by
        rw [isAt, beq_iff_eq] at hat
        rw [isAt, ← hat, beq_eq_false_iff_ne]
        exact (hadd user rfl c hc).symm
      show List.find? _ (user.started :: d.blinkers) = _
      rw [List.find?_cons, hnew]
    · exact ⟨b, b', hb, hb', hphase⟩
  | remove a =>
    refine hkeep _ fun y hy => find?_eraseP_of_disjoint fun c hc => isAt_of_ne ?_ hc
    exact fun heq => htouch ⟨y, hy, heq⟩
  | find user => exact ⟨b, b', hb, hb', hphase⟩
  | sync a =>
    rw [Board.step]
    split
    · refine hkeep _ fun y hy => find?_modifyFirst_of_disjoint fun c hc => ?_
      -- the second blinker of the other sync, which alone is changed, is none of the two
      have hne : (a &&& 0xFFFF#32).setWidth 16 ≠ y.setWidth 16 := fun heq =>
        htouch ⟨_, by simp, y, hy, heq⟩
      exact ⟨isAt_of_ne hne hc, isAt_of_ne hne hc⟩
    · exact ⟨b, b', hb, hb', hphase⟩
  | tasklet =>
    -- both blinkers are ticked where they are
    have htick : ∀ y, (d.blinkers.map Blinker.tick).find? (isAt y) =
        (d.blinkers.find? (isAt y)).map Blinker.tick := by
      intro y
      have hsame : isAt y ∘ Blinker.tick = isAt y := funext fun c => isAt_congr c.location_tick
      rw [List.find?_map, hsame]
    refine ⟨b.tick, b'.tick, ?_, ?_, hphase.tick⟩
    · rw [Board.step, htick, hb, Option.map_some]
    · rw [Board.step, htick, hb', Option.map_some]

end Board

/-! ## Runs -/

/-- The screen shows the phase of every blinker on the list. -/
def ScreenShows (s : BlinkState) : Prop :=
  ∀ l, s.links.IsChain l → ∀ i ∈ l, s.vmem (s.blinkArray i).cell = (s.blinkArray i).shown

/-- A blinker is added at one of the locations 1 to 1999, where there is none on the list. -/
def AddsDistinct (s : BlinkState) : BlinkEvent → Prop
  | .add user => user.location ≠ 0#16 ∧ user.location.toNat < 2000 ∧
      s.mp1FindHelper (user.location.setWidth 32) = some none
  | _ => True

/-- A sync that finds both locations takes over the phase of a blinker that is off, or gives it to
one whose characters are equal. -/
def SyncsDark (s : BlinkState) : BlinkEvent → Prop
  | .sync arg => ∀ i ∈ (s.mp1FindHelper (arg >>> 16)).join,
      ∀ j ∈ (s.mp1FindHelper (arg &&& 0xFFFF#32)).join,
        (s.blinkArray i).isOn = false ∨ (s.blinkArray j).onChar = (s.blinkArray j).offChar
  | _ => True

/-- The blinkers at the two locations of a sync are on the list, in the same phase. -/
def InPhase (arg : Word) (s : BlinkState) : Prop :=
  ∃ i j, s.mp1FindHelper (arg >>> 16) = some (some i) ∧
    s.mp1FindHelper (arg &&& 0xFFFF#32) = some (some j) ∧
    Blinker.SamePhase (s.blinkArray i).toBlinker (s.blinkArray j).toBlinker

/-- In the run a successful sync lasts: after it, and after every number of calls that neither sync
nor remove one of its blinkers, both are in the same phase. -/
def SyncsLast (s₀ : BlinkState) (es : List BlinkEvent) : Prop :=
  ∀ before arg after s t s', before ++ .sync arg :: after <+: es →
    exec blinkStep s₀ before = some s → s.mp1IoctlSync arg = some (0#32, t) →
    (∀ e ∈ after, ¬ Touches arg e) →
    exec blinkStep s₀ (before ++ .sync arg :: after) = some s' → InPhase arg s'

instance (s : BlinkState) : ∀ e, Decidable (AddsDistinct s e)
  | .add _ => inferInstanceAs (Decidable (_ ∧ _ ∧ _))
  | .remove _ | .find _ | .sync _ | .tasklet => isTrue trivial

instance (s : BlinkState) : ∀ e, Decidable (SyncsDark s e)
  | .sync _ => inferInstanceAs (Decidable (∀ i ∈ Option.join _, ∀ j ∈ Option.join _, _))
  | .add _ | .remove _ | .find _ | .tasklet => isTrue trivial

namespace OnBoard

variable {s : BlinkState} {d : Board} {l : List Slot} {e : BlinkEvent} {arg : Word}

theorem screenShows_iff (h : OnBoard s d l) : ScreenShows s ↔ d.Shows := by
  have hshows : d.Shows ↔ ∀ i ∈ l, s.vmem (s.blinkArray i).cell = (s.blinkArray i).shown := by
    rw [Board.Shows, h.blinkers, h.vmem]
    exact List.forall_mem_map
  rw [hshows]
  constructor
  · intro hscreen
    exact hscreen l h.chain
  · intro hscreen l' hchain
    -- there is one chain only
    rw [hchain.unique h.chain]
    exact hscreen

/-- What a search on the board finds is what the search in the memory finds. -/
theorem find_eq (h : OnBoard s d l) (arg : Word) :
    d.blinkers.find? (Board.isAt arg) =
      (s.mp1FindHelper arg).join.map fun i => (s.blinkArray i).toBlinker := by
  rw [h.find_blinkers, h.mp1FindHelper_eq, Option.join_some]

theorem inPhase_iff (h : OnBoard s d l) : InPhase arg s ↔ d.InPhase arg := by
  rw [InPhase, Board.InPhase, h.find_blinkers, h.find_blinkers, h.mp1FindHelper_eq,
    h.mp1FindHelper_eq]
  simp only [Option.some.injEq, Option.map_eq_some_iff]
  constructor
  · rintro ⟨i, j, hi, hj, hphase⟩
    exact ⟨_, _, ⟨i, hi, rfl⟩, ⟨j, hj, rfl⟩, hphase⟩
  · rintro ⟨_, _, ⟨i, hi, rfl⟩, ⟨j, hj, rfl⟩, hphase⟩
    exact ⟨i, j, hi, hj, hphase⟩

/-- An admitted blinker is at a location of its own. -/
theorem location_ne (h : OnBoard s d l) (hadd : AddsDistinct s e) (user : BlinkStruct)
    (he : e = .add user) : ∀ b ∈ d.blinkers, b.location ≠ user.location := by
  subst he
  -- the search of the add has found nothing
  have hnone := h.find_eq (user.location.setWidth 32)
  rw [hadd.2.2] at hnone
  intro b hb heq
  have hat := List.find?_eq_none.mp hnone b hb
  apply hat
  rw [Board.isAt, beq_iff_eq, heq, BitVec.setWidth_setWidth_of_le _ (by decide),
    BitVec.setWidth_eq]

theorem addsNonzero (hadd : AddsDistinct s e) : AddsNonzero s e := by
  cases e with
  | add user => exact fun hzero => absurd hzero hadd.1
  | remove | find | sync | tasklet => trivial

end OnBoard

/-- The invariant of the runs: the memory holds a board of blinkers at different locations, and the
board has a property. -/
def Holds (P : Board → Prop) (s : BlinkState) : Prop :=
  ∃ d l, OnBoard s d l ∧ d.Distinct ∧ P d

/-- What the call does to the board, it does to the memory. -/
theorem Holds.step {P Q : Board → Prop} {s s' : BlinkState} {e : BlinkEvent} (h : Holds P s)
    (hadd : AddsDistinct s e) (hs' : blinkStep s e = some s')
    (hP : ∀ d l, OnBoard s d l → d.Distinct → P d → Q (d.step e)) : Holds Q s' := by
  obtain ⟨d, l, hboard, hdistinct, hd⟩ := h
  obtain ⟨s₁, hs₁, l', hboard'⟩ := hboard.step (OnBoard.addsNonzero hadd)
  obtain rfl := Option.some.inj (hs₁.symm.trans hs')
  exact ⟨_, l', hboard', hdistinct.step (hboard.location_ne hadd), hP d l hboard hdistinct hd⟩

namespace Holds

variable {s s' : BlinkState} {e : BlinkEvent} {arg : Word}

theorem start {P : Board → Prop} {vmem : Buffer} (hP : P ⟨[], vmem⟩) : Holds P (.start vmem) :=
  ⟨_, _, OnBoard.start vmem, List.nodup_nil, hP⟩

theorem step_shows (h : Holds Board.Shows s) (hadd : AddsDistinct s e) (hdark : SyncsDark s e)
    (hs' : blinkStep s e = some s') : Holds Board.Shows s' := by
  refine h.step hadd hs' fun d l hboard hdistinct hshows => ?_
  apply hshows.step hdistinct (hboard.location_ne hadd)
  rintro arg rfl src hsrc b hb
  rw [hboard.find_eq, Option.mem_def, Option.map_eq_some_iff] at hsrc hb
  obtain ⟨i, hi, rfl⟩ := hsrc
  obtain ⟨j, hj, rfl⟩ := hb
  exact hdark i hi j hj

/-- A sync that is not dark leaves a wrong character. -/
theorem not_screenShows (h : Holds Board.Shows s) (hadd : AddsDistinct s e)
    (hdark : ¬ SyncsDark s e) : ∃ s', blinkStep s e = some s' ∧ ¬ ScreenShows s' := by
  obtain ⟨d, l, hboard, -⟩ := h
  obtain ⟨s', hs', l', hboard'⟩ := hboard.step (OnBoard.addsNonzero hadd)
  refine ⟨s', hs', ?_⟩
  rw [hboard'.screenShows_iff]
  cases e with
  | sync arg =>
    simp only [SyncsDark, not_forall, not_or, Bool.not_eq_false] at hdark
    obtain ⟨i, hi, j, hj, hon, hne⟩ := hdark
    refine Board.not_shows_sync ?_ ?_ hon hne
    · -- the blinker that is on, and the one that is drawn
      rw [hboard.find_eq, Option.mem_def.mp hi, Option.map_some]
    · rw [hboard.find_eq, Option.mem_def.mp hj, Option.map_some]
  | add | remove | find | tasklet => exact absurd trivial hdark

/-- A successful sync finds both blinkers, and puts them in the same phase. -/
theorem inPhase_sync {P : Board → Prop} (h : Holds P s)
    (hsync : s.mp1IoctlSync arg = some (0#32, s')) : Holds (Board.InPhase arg) s' := by
  have hstep : blinkStep s (.sync arg) = some s' := by rw [blinkStep, hsync, Option.map_some]
  have hadd : AddsDistinct s (.sync arg) := trivial
  refine h.step hadd hstep fun d l hboard hdistinct _ => ?_
  -- a sync that returns 0 has found both
  rw [BlinkState.mp1IoctlSync, hboard.mp1FindHelper_eq, hboard.mp1FindHelper_eq] at hsync
  have hsrc := hboard.find_blinkers (arg >>> 16)
  have hdst := hboard.find_blinkers (arg &&& 0xFFFF#32)
  cases hesi : l.find? fun i => Board.isAt (arg >>> 16) (s.blinkArray i).toBlinker with
  | none => simp [hesi] at hsync
  | some esi =>
    cases hedi : l.find? fun i => Board.isAt (arg &&& 0xFFFF#32) (s.blinkArray i).toBlinker with
    | none => simp [hesi, hedi] at hsync
    | some edi =>
      rw [hesi] at hsrc
      rw [hedi] at hdst
      exact Board.inPhase_sync hsrc hdst

end Holds

/-- What a successful sync does lasts, whatever the syncs draw. -/
theorem syncsLast {vmem : Buffer} {es : List BlinkEvent}
    (hadds : Along blinkStep AddsDistinct (.start vmem) es) : SyncsLast (.start vmem) es := by
  intro before arg after s t s' hprefix hs hsync htouch hs'
  have hadds := hadds.of_prefix hprefix
  have hstep : blinkStep s (.sync arg) = some t := by rw [blinkStep, hsync, Option.map_some]
  -- up to the sync, and after it
  have hbefore : Holds (fun _ => True) s :=
    exec_invariant (P := AddsDistinct) (fun s e s' h hadd hs' => h.step hadd hs' (by simp))
      (Holds.start trivial) (hadds.of_prefix (List.prefix_append _ _)) hs
  rw [exec_append, hs, Option.bind_some, exec_cons_of_eq hstep] at hs'
  obtain ⟨d, l, hboard, -, hphase⟩ : Holds (Board.InPhase arg) s' := by
    refine exec_invariant (P := fun s e => AddsDistinct s e ∧ ¬ Touches arg e)
      (fun s e s' h hP hs' => ?_) (hbefore.inPhase_sync hsync) ?_ hs'
    · refine h.step hP.1 hs' fun d l hboard _ hphase => ?_
      exact hphase.step hP.2 (hboard.location_ne hP.1)
    · exact ((hadds.of_exec hs).2 t hstep).and (along_of_forall htouch t)
  exact hboard.inPhase_iff.mpr hphase

theorem always_screenShows_iff {vmem : Buffer} {es : List BlinkEvent}
    (hadds : Along blinkStep AddsDistinct (.start vmem) es) :
    Always blinkStep ScreenShows (.start vmem) es ↔
      Along blinkStep SyncsDark (.start vmem) es := by
  refine always_iff_along_of (I := Holds Board.Shows) ?_
    (fun s e s' h hadd hdark hs' => h.step_shows hadd hdark hs')
    (fun s e h hadd hdark => h.not_screenShows hadd hdark) (Holds.start (by simp [Board.Shows]))
    hadds
  rintro s ⟨d, l, hboard, -, hshows⟩
  exact hboard.screenShows_iff.mpr hshows

/-- In every run of calls that adds blinkers at different locations, the screen shows the phase of
every blinker in every state, and the blinkers of a successful sync stay in phase, exactly when no
sync gives the phase of a blinker that is on to one whose two characters differ. -/
theorem screenShows_and_syncsLast_iff {vmem : Buffer} {es : List BlinkEvent}
    (hadds : Along blinkStep AddsDistinct (.start vmem) es) :
    (Always blinkStep ScreenShows (.start vmem) es ∧ SyncsLast (.start vmem) es) ↔
      Along blinkStep SyncsDark (.start vmem) es := by
  rw [and_iff_left (syncsLast hadds)]
  exact always_screenShows_iff hadds

/-- A blinker at a location, with the characters of the first two cells that `fish` adds. -/
def sampleBlinker (location : BitVec 16) : BlinkStruct :=
  { BlinkStruct.zero with
    location, onChar := 0x49#8, offChar := 0x4D#8, onLength := 7#16, offLength := 6#16 }

/-- The second of two blinkers takes over the phase of the first one, which is on. -/
def brightSync : List BlinkEvent :=
  [.add (sampleBlinker 100#16), .add (sampleBlinker 200#16), .sync 0x006400C8#32]

namespace BrightSync

/-- The memory after the first add, and after the second one. -/
def firstAdded : BlinkState := (BlinkState.start fun _ => 0#8).pushed 0 (sampleBlinker 100#16)

def bothAdded : BlinkState := firstAdded.pushed 1 (sampleBlinker 200#16)

theorem mp1Malloc_start (vmem : Buffer) : (BlinkState.start vmem).mp1Malloc = some 0 :=
  BlinkState.mp1Malloc_eq_some.mpr ⟨rfl, fun _ hj => absurd hj (Fin.not_lt_zero _)⟩

theorem mp1Malloc_firstAdded : firstAdded.mp1Malloc = some 1 := by
  refine BlinkState.mp1Malloc_eq_some.mpr ⟨rfl, fun j hj => ?_⟩
  obtain rfl : j = 0 := Fin.ext (Nat.lt_one_iff.mp hj)
  decide

theorem step_first :
    blinkStep (.start fun _ => 0#8) (.add (sampleBlinker 100#16)) = some firstAdded := by
  rw [blinkStep, BlinkState.mp1IoctlAdd_eq (mp1Malloc_start _) (by decide)]
  rfl

theorem step_second : blinkStep firstAdded (.add (sampleBlinker 200#16)) = some bothAdded := by
  rw [blinkStep, BlinkState.mp1IoctlAdd_eq mp1Malloc_firstAdded (by decide)]
  rfl

theorem adds : Along blinkStep AddsDistinct (.start fun _ => 0#8) brightSync := by
  refine ⟨by decide, fun s hs => ?_⟩
  obtain rfl := Option.some.inj (step_first.symm.trans hs)
  refine ⟨by decide, fun s hs => ?_⟩
  obtain rfl := Option.some.inj (step_second.symm.trans hs)
  exact ⟨trivial, fun _ _ => trivial⟩

theorem not_syncsDark : ¬ Along blinkStep SyncsDark (.start fun _ => 0#8) brightSync := by
  rintro ⟨-, h⟩
  obtain ⟨-, h⟩ := h _ step_first
  -- the first blinker is on, and the characters of the second one differ
  have hsrc : (bothAdded.mp1FindHelper (0x006400C8#32 >>> 16)).join = some 0 := rfl
  have hdst : (bothAdded.mp1FindHelper (0x006400C8#32 &&& 0xFFFF#32)).join = some 1 := rfl
  rcases (h _ step_second).1 0 hsrc 1 hdst with hoff | hsame
  · exact absurd hoff (by decide)
  · exact absurd hsame (by decide)

end BrightSync

theorem screenShows_and_syncsLast_iff_brightSync :
    Along blinkStep AddsDistinct (.start fun _ => 0#8) brightSync ∧
      ¬ (Always blinkStep ScreenShows (.start fun _ => 0#8) brightSync ∧
        SyncsLast (.start fun _ => 0#8) brightSync) :=
  ⟨BrightSync.adds, fun h =>
    BrightSync.not_syncsDark ((screenShows_and_syncsLast_iff BrightSync.adds).mp h)⟩

/-- The second blinker is on, and its cell holds the character of the other phase. -/
theorem not_screenShows_after_sync :
    Along blinkStep AddsDistinct (.start fun _ => 0#8) brightSync ∧
      ¬ Always blinkStep ScreenShows (.start fun _ => 0#8) brightSync :=
  ⟨BrightSync.adds, fun h =>
    BrightSync.not_syncsDark ((always_screenShows_iff BrightSync.adds).mp h)⟩

end Ece391
