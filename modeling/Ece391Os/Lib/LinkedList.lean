import Mathlib.Data.Fintype.Card
import Mathlib.Logic.Function.Basic

/-!
# Singly linked lists in memory

A list of nodes of a type `α` is a pointer to its first node and a `next` pointer in each node; the
null pointer is `none`. A cell that holds a pointer, a *link*, is named like one: `none` is the head
of the list, `some i` the `next` field of node `i`.

* `Links.IsChain L l`: the pointers lead through the nodes of `l`, in order, to the null pointer.
  The nodes of a chain are distinct (`IsChain.nodup`), so there are at most as many as there are
  nodes at all.
* `search`, `traverse` and `findLink` are the loops that look for a node, that change every node,
  and that look for the link to a node. They run on a number of iterations, and on a chain that is
  shorter they end with the result one expects of the list.
* `IsChain.push` and `IsChain.unlink`: a node is put in front, and a node is taken out by a store to
  the link that leads to it.
-/

/-- The pointers of a linked list. -/
structure Links (α : Type*) where
  head : Option α
  next : α → Option α

namespace Links

variable {α σ : Type*}

/-- The pointer in a link. -/
def load (L : Links α) : Option α → Option α
  | none => L.head
  | some i => L.next i

/-- The nodes from a pointer to the null pointer. -/
def ChainFrom (next : α → Option α) : Option α → List α → Prop
  | p, [] => p = none
  | p, i :: l => p = some i ∧ ChainFrom next (next i) l

/-- The nodes of the list. -/
def IsChain (L : Links α) (l : List α) : Prop := ChainFrom L.next L.head l

namespace ChainFrom

variable {next next' : α → Option α} {p : Option α} {i : α} {l l' l₁ l₂ : List α}

theorem unique (h : ChainFrom next p l) (h' : ChainFrom next p l') : l = l' := by
  induction l generalizing p l' with
  | nil =>
    cases l' with
    | nil => rfl
    | cons i' l' => exact absurd (h.symm.trans h'.1) (by simp)
  | cons i l ih =>
    cases l' with
    | nil => exact absurd (h'.symm.trans h.1) (by simp)
    | cons i' l' =>
      -- the pointer leads both chains to the same node
      obtain rfl : i = i' := Option.some.inj (h.1.symm.trans h'.1)
      rw [ih h.2 h'.2]

/-- Pointers of other nodes do not matter. -/
theorem congr (h : ChainFrom next p l) (hnext : ∀ i ∈ l, next' i = next i) :
    ChainFrom next' p l := by
  induction l generalizing p with
  | nil => exact h
  | cons i l ih =>
    refine ⟨h.1, ?_⟩
    rw [hnext i List.mem_cons_self]
    exact ih h.2 fun j hj => hnext j (List.mem_cons_of_mem i hj)

/-- The rest of a chain from one of its nodes on. -/
theorem of_append (h : ChainFrom next p (l₁ ++ i :: l₂)) : ChainFrom next (next i) l₂ := by
  induction l₁ generalizing p with
  | nil => exact h.2
  | cons j l₁ ih => exact ih h.2

/-- A node that came twice would come for ever. -/
theorem nodup (h : ChainFrom next p l) : l.Nodup := by
  induction l generalizing p with
  | nil => exact List.nodup_nil
  | cons i l ih =>
    refine List.nodup_cons.mpr ⟨fun hi => ?_, ih h.2⟩
    obtain ⟨l₁, l₂, rfl⟩ := List.append_of_mem hi
    -- the rest of the list and the rest behind the second visit start at the same pointer
    have hsame := h.2.unique h.2.of_append
    have hlength := congrArg List.length hsame
    simp at hlength
    omega

end ChainFrom

theorem IsChain.nodup {L : Links α} {l : List α} (h : L.IsChain l) : l.Nodup := ChainFrom.nodup h

theorem IsChain.length_le [Fintype α] {L : Links α} {l : List α} (h : L.IsChain l) :
    l.length ≤ Fintype.card α :=
  h.nodup.length_le_card

/-! ## The loops -/

/-- `while (p != NULL) { if (found(p)) return p; p = p->next; } return NULL;` -/
def search (next : α → Option α) (found : α → Bool) : ℕ → Option α → Option (Option α)
  | 0, _ => none
  | _ + 1, none => some none
  | n + 1, some i => if found i then some (some i) else search next found n (next i)

/-- `while (p != NULL) { visit(p); p = p->next; }`, where `next` reads the memory as the visits have
left it. -/
def traverse (next : σ → α → Option α) (visit : α → σ → σ) : ℕ → Option α → σ → Option σ
  | 0, _, _ => none
  | _ + 1, none, s => some s
  | n + 1, some i, s => traverse next visit n (next (visit i s) i) (visit i s)

/-- `while (*link != target) link = &(*link)->next;`. The loop faults behind the last node. -/
def findLink [DecidableEq α] (L : Links α) (target : α) : ℕ → Option α → Option (Option α)
  | 0, _ => none
  | n + 1, link =>
    match L.load link with
    | none => none
    | some i => if i = target then some link else findLink L target n (some i)

section Loops

variable {next : α → Option α} {p : Option α} {l : List α} {n : ℕ}

/-- On a chain the search finds the first node it looks for. -/
theorem search_eq (h : ChainFrom next p l) (found : α → Bool) (hn : l.length < n) :
    search next found n p = some (l.find? found) := by
  induction l generalizing p n with
  | nil =>
    obtain ⟨m, rfl⟩ := Nat.exists_eq_add_of_lt hn
    rw [h]
    rfl
  | cons i l ih =>
    -- an iteration is left for this node
    obtain ⟨m, rfl⟩ : ∃ m, n = m + 1 := ⟨n - 1, by omega⟩
    rw [h.1, search, List.find?_cons]
    cases found i with
    | true => rfl
    | false => exact ih h.2 (by simpa using hn)

/-- A traversal whose visits keep the pointers visits the nodes of a chain in order. -/
theorem traverse_eq {next : σ → α → Option α} {visit : α → σ → σ}
    (hnext : ∀ i s, next (visit i s) = next s) {s : σ} (h : ChainFrom (next s) p l)
    (hn : l.length < n) :
    traverse next visit n p s = some (l.foldl (fun s i => visit i s) s) := by
  induction l generalizing p n s with
  | nil =>
    obtain ⟨m, rfl⟩ := Nat.exists_eq_add_of_lt hn
    rw [h]
    rfl
  | cons i l ih =>
    obtain ⟨m, rfl⟩ : ∃ m, n = m + 1 := ⟨n - 1, by omega⟩
    rw [h.1, traverse, List.foldl_cons]
    -- the visit has kept the pointers, so the rest is still a chain
    refine ih ?_ (by simpa using hn)
    rw [hnext]
    exact h.2

variable [DecidableEq α] {L : Links α} {target : α} {l₁ l₂ : List α}

/-- The search for a link stops at the link to the target: the head, or the node before it. -/
theorem findLink_eq (link : Option α) (h : ChainFrom L.next (L.load link) (l₁ ++ target :: l₂))
    (hfirst : target ∉ l₁) (hn : l₁.length < n) :
    L.findLink target n link = some (l₁.getLast?.or link) := by
  induction l₁ generalizing link n with
  | nil =>
    obtain ⟨m, rfl⟩ : ∃ m, n = m + 1 := ⟨n - 1, by omega⟩
    have hload : L.load link = some target := h.1
    rw [findLink, hload]
    simp
  | cons i l₁ ih =>
    obtain ⟨m, rfl⟩ : ∃ m, n = m + 1 := ⟨n - 1, by omega⟩
    have hload : L.load link = some i := h.1
    -- the target comes later, so the loop moves on to the link in this node
    have hne : i ≠ target := fun heq => hfirst (heq ▸ List.mem_cons_self)
    rw [findLink, hload]
    simp only [if_neg hne]
    rw [ih (some i) h.2 (fun hmem => hfirst (List.mem_cons_of_mem i hmem))
      (by simpa using hn)]
    rw [List.getLast?_cons]
    cases l₁.getLast? <;> rfl

end Loops

/-! ## Changes of a list -/

section Changes

variable [DecidableEq α] {L : Links α} {i target : α} {l l₁ l₂ : List α}

/-- Store a pointer in a link. -/
def store (L : Links α) (link p : Option α) : Links α :=
  match link with
  | none => { L with head := p }
  | some i => { L with next := Function.update L.next i p }

/-- Put a node in front of the list. -/
def push (L : Links α) (i : α) : Links α :=
  { head := some i, next := Function.update L.next i L.head }

/-- A new node in front of a chain. -/
theorem IsChain.push (h : L.IsChain l) (hi : i ∉ l) : (L.push i).IsChain (i :: l) := by
  refine ⟨rfl, ?_⟩
  have hnext : (L.push i).next i = L.head := Function.update_self _ _ _
  rw [hnext]
  -- the store is to a node that the old chain does not visit
  refine ChainFrom.congr h fun j hj => Function.update_of_ne ?_ _ _
  rintro rfl
  exact hi hj

/-- A chain is joined behind one of its nodes to another chain. -/
theorem ChainFrom.join {next : α → Option α} {p q : Option α}
    (h : ChainFrom next p (l₁ ++ i :: l₂)) (hi : i ∉ l₁) (hq : ChainFrom next q l)
    (hl : i ∉ l) : ChainFrom (Function.update next i q) p (l₁ ++ i :: l) := by
  induction l₁ generalizing p with
  | nil =>
    refine ⟨h.1, ?_⟩
    rw [Function.update_self]
    refine hq.congr fun j hj => Function.update_of_ne ?_ _ _
    rintro rfl
    exact hl hj
  | cons j l₁ ih =>
    refine ⟨h.1, ?_⟩
    have hne : j ≠ i := fun heq => hi (heq ▸ List.mem_cons_self)
    rw [Function.update_of_ne hne]
    exact ih h.2 fun hmem => hi (List.mem_cons_of_mem j hmem)

/-- A node is taken out of a chain by a store to the link that leads to it. -/
theorem IsChain.unlink (h : L.IsChain (l₁ ++ target :: l₂)) :
    (L.store l₁.getLast? (L.next target)).IsChain (l₁ ++ l₂) := by
  have hrest : ChainFrom L.next (L.next target) l₂ := ChainFrom.of_append h
  rcases List.eq_nil_or_concat l₁ with rfl | ⟨l₀, i, rfl⟩
  · -- the target is the first node, and the link is the head
    exact hrest
  · -- the link is the pointer of the node before the target
    rw [List.concat_eq_append] at h ⊢
    have hchain : ChainFrom L.next L.head (l₀ ++ i :: target :: l₂) := by
      simpa [IsChain] using h
    -- the node before the target is neither before nor behind itself
    have hnodup := hchain.nodup
    have hbefore : i ∉ l₀ := fun hmem =>
      (List.nodup_append.mp hnodup).2.2 i hmem i List.mem_cons_self rfl
    have hbehind : i ∉ l₂ := fun hmem =>
      (List.nodup_cons.mp (List.nodup_append.mp hnodup).2.1).1 (List.mem_cons_of_mem target hmem)
    have hjoin := hchain.join hbefore hrest hbehind
    simpa [IsChain, store] using hjoin

end Changes

end Links
