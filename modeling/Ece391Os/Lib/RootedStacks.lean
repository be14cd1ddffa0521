import Mathlib.Algebra.BigOperators.Group.Finset.Basic
import Mathlib.Algebra.Order.BigOperators.Group.Finset
import Mathlib.Data.Fintype.BigOperators
import Mathlib.Data.List.Nodup
import Mathlib.Data.Finset.Union

/-!
# Disjoint stacks over fixed roots

A family of stacks `ι → List α`, one for each index, such that the bottom of stack `i` is a fixed
element `root i`, no stack repeats an element and no element is on two stacks. The shape is a
field of the structure, so the operations below cannot build an ill-formed family.

* `RootedStacks.push` and `RootedStacks.pop` work at the top of one stack and leave the others.
* `RootedStacks.size` is the number of elements on all stacks, and `card_members` says that it
  counts the elements themselves, since none is there twice.
* `Walk next stop x l`: following the partial function `next` from `x` visits the list `l`, whose
  last element is the first one that satisfies `stop`. It is how a stack is laid out in memory
  when each element holds a pointer to the one below it.
-/

/-- Stacks with pairwise distinct elements, none shared, and with fixed bottoms. -/
@[ext]
structure RootedStacks (ι α : Type*) (root : ι → α) where
  /-- The elements of each stack, top first. -/
  stack : ι → List α
  /-- The bottom of stack `i` is `root i`. -/
  last : ∀ i, (stack i).getLast? = some (root i)
  /-- No stack repeats an element. -/
  nodup : ∀ i, (stack i).Nodup
  /-- No element is on two stacks. -/
  disjoint : ∀ i j, i ≠ j → ∀ a ∈ stack i, a ∉ stack j

namespace RootedStacks

variable {ι α : Type*} {root : ι → α}

/-- An element is on one of the stacks. -/
def Mem (S : RootedStacks ι α root) (a : α) : Prop := ∃ i, a ∈ S.stack i

theorem stack_ne_nil (S : RootedStacks ι α root) (i : ι) : S.stack i ≠ [] := by
  intro h
  have hlast := S.last i
  simp [h] at hlast

theorem root_mem (S : RootedStacks ι α root) (i : ι) : root i ∈ S.stack i :=
  List.mem_of_getLast? (S.last i)

/-- An element is on at most one stack. -/
theorem index_unique (S : RootedStacks ι α root) {i j : ι} {a : α}
    (hi : a ∈ S.stack i) (hj : a ∈ S.stack j) : i = j := by
  by_contra h
  exact S.disjoint i j h a hi hj

section Update

variable [DecidableEq ι]

/-- Put `a`, which is on no stack, on top of stack `i`. -/
def push (S : RootedStacks ι α root) (i : ι) (a : α) (h : ¬ S.Mem a) :
    RootedStacks ι α root where
  stack := Function.update S.stack i (a :: S.stack i)
  last j := by
    by_cases hj : j = i
    · subst hj
      rw [Function.update_self, List.getLast?_cons_of_ne_nil (S.stack_ne_nil j)]
      exact S.last j
    · rw [Function.update_of_ne hj]
      exact S.last j
  nodup j := by
    by_cases hj : j = i
    · subst hj
      rw [Function.update_self]
      exact List.nodup_cons.mpr ⟨fun hm => h ⟨j, hm⟩, S.nodup j⟩
    · rw [Function.update_of_ne hj]
      exact S.nodup j
  disjoint j k hjk b hb hk := by
    by_cases hj : j = i
    · subst hj
      rw [Function.update_self] at hb
      rw [Function.update_of_ne (Ne.symm hjk)] at hk
      -- the new element is on no stack, and the old ones are on one only
      rcases List.mem_cons.mp hb with rfl | hb
      · exact h ⟨k, hk⟩
      · exact S.disjoint j k hjk b hb hk
    · rw [Function.update_of_ne hj] at hb
      by_cases hki : k = i
      · subst hki
        rw [Function.update_self] at hk
        rcases List.mem_cons.mp hk with rfl | hk
        · exact h ⟨j, hb⟩
        · exact S.disjoint j k hjk b hb hk
      · rw [Function.update_of_ne hki] at hk
        exact S.disjoint j k hjk b hb hk

/-- Take the top off stack `i`, which has an element below it. -/
def pop (S : RootedStacks ι α root) (i : ι) (h : 1 < (S.stack i).length) :
    RootedStacks ι α root where
  stack := Function.update S.stack i (S.stack i).tail
  last j := by
    by_cases hj : j = i
    · subst hj
      rw [Function.update_self, List.getLast?_tail, if_neg (by omega)]
      exact S.last j
    · rw [Function.update_of_ne hj]
      exact S.last j
  nodup j := by
    by_cases hj : j = i
    · subst hj
      rw [Function.update_self]
      exact (S.nodup j).tail
    · rw [Function.update_of_ne hj]
      exact S.nodup j
  disjoint j k hjk b hb hk := by
    -- every stack has become shorter, if it has changed at all
    have hsub : ∀ m, b ∈ Function.update S.stack i (S.stack i).tail m → b ∈ S.stack m := by
      intro m hm
      by_cases hmi : m = i
      · subst hmi
        rw [Function.update_self] at hm
        exact List.mem_of_mem_tail hm
      · rwa [Function.update_of_ne hmi] at hm
    exact S.disjoint j k hjk b (hsub j hb) (hsub k hk)

variable {S : RootedStacks ι α root} {i j : ι} {a b : α}

@[simp]
theorem push_stack_self (h : ¬ S.Mem a) : (S.push i a h).stack i = a :: S.stack i := by
  simp [push]

@[simp]
theorem push_stack_of_ne (h : ¬ S.Mem a) (hj : j ≠ i) : (S.push i a h).stack j = S.stack j := by
  simp [push, hj]

theorem mem_push_stack (h : ¬ S.Mem a) :
    b ∈ (S.push i a h).stack j ↔ (b = a ∧ j = i) ∨ b ∈ S.stack j := by
  by_cases hj : j = i
  · subst hj
    simp
  · simp [hj]

@[simp]
theorem pop_stack_self (h : 1 < (S.stack i).length) :
    (S.pop i h).stack i = (S.stack i).tail := by
  simp [pop]

@[simp]
theorem pop_stack_of_ne (h : 1 < (S.stack i).length) (hj : j ≠ i) :
    (S.pop i h).stack j = S.stack j := by
  simp [pop, hj]

theorem mem_of_mem_pop_stack (h : 1 < (S.stack i).length) (hb : b ∈ (S.pop i h).stack j) :
    b ∈ S.stack j := by
  by_cases hj : j = i
  · subst hj
    rw [pop_stack_self] at hb
    exact List.mem_of_mem_tail hb
  · rwa [pop_stack_of_ne h hj] at hb

/-- The popped top is on no stack any more. -/
theorem not_mem_pop (h : 1 < (S.stack i).length) (htop : (S.stack i).head? = some a) :
    ¬ (S.pop i h).Mem a := by
  rintro ⟨j, hj⟩
  have ha : a ∈ S.stack i := List.mem_of_head? htop
  -- it could only be on the stack it has been taken off, below itself
  obtain rfl := S.index_unique ha (mem_of_mem_pop_stack h hj)
  rw [pop_stack_self] at hj
  match hs : S.stack i with
  | [] => simp [hs] at h
  | c :: l =>
    obtain rfl : c = a := by simpa [hs] using htop
    rw [hs] at hj
    exact (List.nodup_cons.mp (hs ▸ S.nodup i)).1 hj

end Update

section Size

variable [Fintype ι]

/-- The number of elements on all stacks. -/
def size (S : RootedStacks ι α root) : ℕ := ∑ i, (S.stack i).length

/-- The elements on the stacks, as a finite set. -/
def members [DecidableEq α] (S : RootedStacks ι α root) : Finset α :=
  Finset.univ.biUnion fun i => (S.stack i).toFinset

@[simp]
theorem mem_members [DecidableEq α] {S : RootedStacks ι α root} {a : α} :
    a ∈ S.members ↔ S.Mem a := by
  simp [members, Mem]

/-- `size` counts elements: none is on the stacks twice. -/
theorem card_members [DecidableEq α] (S : RootedStacks ι α root) : S.members.card = S.size := by
  rw [members, Finset.card_biUnion]
  · exact Finset.sum_congr rfl fun i _ => List.toFinset_card_of_nodup (S.nodup i)
  · intro i _ j _ hij
    refine Finset.disjoint_left.mpr fun a ha hb => ?_
    exact S.disjoint i j hij a (List.mem_toFinset.mp ha) (List.mem_toFinset.mp hb)

theorem card_le_size (S : RootedStacks ι α root) : Fintype.card ι ≤ S.size := by
  calc Fintype.card ι = ∑ _i : ι, 1 := by simp
    _ ≤ S.size := Finset.sum_le_sum fun i _ => List.length_pos_iff.mpr (S.stack_ne_nil i)

variable [DecidableEq ι] {S : RootedStacks ι α root} {i : ι} {a : α}

@[simp]
theorem size_push (h : ¬ S.Mem a) : (S.push i a h).size = S.size + 1 := by
  rw [size, size, ← Finset.add_sum_erase _ _ (Finset.mem_univ i),
    ← Finset.add_sum_erase _ (fun j => (S.stack j).length) (Finset.mem_univ i), push_stack_self]
  have hrest : ∑ j ∈ Finset.univ.erase i, ((S.push i a h).stack j).length =
      ∑ j ∈ Finset.univ.erase i, (S.stack j).length :=
    Finset.sum_congr rfl fun j hj => by rw [push_stack_of_ne h (Finset.ne_of_mem_erase hj)]
  rw [hrest, List.length_cons]
  omega

theorem size_pop (h : 1 < (S.stack i).length) : (S.pop i h).size + 1 = S.size := by
  rw [size, size, ← Finset.add_sum_erase _ _ (Finset.mem_univ i),
    ← Finset.add_sum_erase _ (fun j => (S.stack j).length) (Finset.mem_univ i), pop_stack_self]
  have hrest : ∑ j ∈ Finset.univ.erase i, ((S.pop i h).stack j).length =
      ∑ j ∈ Finset.univ.erase i, (S.stack j).length :=
    Finset.sum_congr rfl fun j hj => by rw [pop_stack_of_ne h (Finset.ne_of_mem_erase hj)]
  rw [hrest, List.length_tail]
  omega

/-- Every stack higher than its root alone adds an element. -/
theorem card_add_card_le_size {high : Finset ι} (h : ∀ i ∈ high, 1 < (S.stack i).length) :
    Fintype.card ι + high.card ≤ S.size := by
  -- one element for the root, and one more on a high stack
  have hone : ∀ i, 1 + (if i ∈ high then 1 else 0) ≤ (S.stack i).length := by
    intro i
    split_ifs with hi
    · exact h i hi
    · exact List.length_pos_iff.mpr (S.stack_ne_nil i)
  calc Fintype.card ι + high.card = ∑ i, (1 + if i ∈ high then 1 else 0) := by
        simp [Finset.sum_add_distrib]
    _ ≤ S.size := Finset.sum_le_sum fun i _ => hone i

end Size

end RootedStacks

/-- Following `next` from `x` visits `l` and ends at the first element that satisfies `stop`. -/
inductive Walk {α : Type*} (next : α → Option α) (stop : α → Prop) : α → List α → Prop
  | stop {x : α} (hx : stop x) : Walk next stop x [x]
  | step {x y : α} {l : List α} (hx : ¬ stop x) (hxy : next x = some y)
      (hy : Walk next stop y l) : Walk next stop x (x :: l)

namespace Walk

variable {α : Type*} {next next' : α → Option α} {stop : α → Prop} {x y : α} {l l' : List α}

theorem eq_cons (h : Walk next stop x l) : ∃ l', l = x :: l' := by
  cases h with
  | stop _ => exact ⟨[], rfl⟩
  | step _ _ _ => exact ⟨_, rfl⟩

theorem head_mem (h : Walk next stop x l) : x ∈ l := by
  obtain ⟨l', rfl⟩ := h.eq_cons
  exact List.mem_cons_self

/-- A walk of more than one element leaves its start along `next`. -/
theorem tail (h : Walk next stop x (x :: y :: l)) :
    ¬ stop x ∧ next x = some y ∧ Walk next stop y (y :: l) := by
  cases h with
  | step hx hxy hy =>
    -- the rest begins with the element that `next` leads to
    obtain ⟨l', hl'⟩ := hy.eq_cons
    obtain ⟨rfl, -⟩ := List.cons.inj hl'
    exact ⟨hx, hxy, hy⟩

/-- A walk from an element that does not stop has one below it. -/
theorem exists_tail (h : Walk next stop x l) (hx : ¬ stop x) :
    ∃ y l', l = x :: y :: l' ∧ next x = some y ∧ Walk next stop y (y :: l') := by
  cases h with
  | stop hs => exact absurd hs hx
  | step _ hxy hy =>
    obtain ⟨l', rfl⟩ := hy.eq_cons
    exact ⟨_, l', rfl, hxy, hy⟩

/-- The elements a function visits are determined by where it starts. -/
theorem unique (h : Walk next stop x l) (h' : Walk next stop x l') : l = l' := by
  induction h generalizing l' with
  | stop hx =>
    cases h' with
    | stop _ => rfl
    | step hx' _ _ => exact absurd hx hx'
  | step hx hxy _ ih =>
    cases h' with
    | stop hx' => exact absurd hx' hx
    | step _ hxy' hy' =>
      obtain rfl := Option.some.inj (hxy.symm.trans hxy')
      rw [ih hy']

/-- A walk does not notice changes of `next` outside the elements it leaves. -/
theorem congr (h : Walk next stop x l) (hnext : ∀ a ∈ l, ¬ stop a → next' a = next a) :
    Walk next' stop x l := by
  induction h with
  | stop hx => exact .stop hx
  | step hx hxy _ ih =>
    refine .step hx ?_ (ih fun a ha => hnext a (List.mem_cons_of_mem _ ha))
    rw [hnext _ List.mem_cons_self hx, hxy]

/-- An element that a walk leaves leads to one of those behind the start. -/
theorem next_mem_tail (h : Walk next stop x l) {a b : α} (ha : a ∈ l) (hstop : ¬ stop a)
    (hab : next a = some b) : b ∈ l.tail := by
  induction h with
  | stop hx =>
    -- a walk that stops at once leaves no element
    obtain rfl := List.mem_singleton.mp ha
    exact absurd hx hstop
  | @step x y l hx hxy hy ih =>
    rcases List.mem_cons.mp ha with rfl | ha
    · obtain rfl := Option.some.inj (hxy.symm.trans hab)
      exact hy.head_mem
    · exact List.mem_of_mem_tail (ih ha)

end Walk
