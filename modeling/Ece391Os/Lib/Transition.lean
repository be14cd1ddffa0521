import Mathlib.Data.List.Basic
import Mathlib.Logic.Relation
import Mathlib.Order.Basic

/-!
# Runs of a partial transition function

A system is a function `step : σ → ε → Option σ`: an event either takes a state to its successor
or has no successor (a fault, or an event that cannot happen there). The module fixes the
vocabulary of runs and the rules the developments below use.

* `exec step s es` is the state after the events `es`; `none` as soon as one of them has no
  successor.
* `Along step P s es`: every event of the run meets `P` in the state it is taken from.
* `exec_invariant` and `along_of_invariant`: what one step preserves, a run preserves.
* `exec_refines`: a simulation of every step by an abstract run lifts to whole runs.
* `reaches_final`: without events, a machine that can come to an end comes to it from every state
  on its way.
-/

namespace Transition

variable {σ ε : Type*} (step : σ → ε → Option σ)

/-- The state a list of events leads to. -/
def exec : σ → List ε → Option σ
  | s, [] => some s
  | s, e :: es => (step s e).bind fun s' => exec s' es

/-- Every event of a run meets `P` in the state it is taken from. -/
def Along (P : σ → ε → Prop) : σ → List ε → Prop
  | _, [] => True
  | s, e :: es => P s e ∧ ∀ s', step s e = some s' → Along P s' es

variable {step}

@[simp]
theorem exec_nil (s : σ) : exec step s [] = some s := rfl

theorem exec_cons (s : σ) (e : ε) (es : List ε) :
    exec step s (e :: es) = (step s e).bind fun s' => exec step s' es := rfl

/-- A run of at least one event splits into its first step and the rest. -/
theorem exec_cons_eq_some {s s'' : σ} {e : ε} {es : List ε} :
    exec step s (e :: es) = some s'' ↔
      ∃ s', step s e = some s' ∧ exec step s' es = some s'' := by
  rw [exec_cons, Option.bind_eq_some_iff]

/-- A step that has been computed is taken off a run. -/
theorem exec_cons_of_eq {s s' : σ} {e : ε} {es : List ε} (h : step s e = some s') :
    exec step s (e :: es) = exec step s' es := by
  rw [exec_cons, h, Option.bind_some]

theorem exec_append (s : σ) (es fs : List ε) :
    exec step s (es ++ fs) = (exec step s es).bind fun s' => exec step s' fs := by
  induction es generalizing s with
  | nil => rfl
  | cons e es ih =>
    rw [List.cons_append, exec_cons, exec_cons, Option.bind_assoc]
    exact congrArg _ (funext fun s' => ih s')

@[simp]
theorem along_nil (P : σ → ε → Prop) (s : σ) : Along step P s [] := trivial

theorem along_cons {P : σ → ε → Prop} {s : σ} {e : ε} {es : List ε} :
    Along step P s (e :: es) ↔ P s e ∧ ∀ s', step s e = some s' → Along step P s' es := Iff.rfl

/-- A condition that can be decided in a state can be decided along a run. -/
instance Along.decidable {P : σ → ε → Prop} [∀ s e, Decidable (P s e)] :
    ∀ s es, Decidable (Along step P s es)
  | _, [] => isTrue trivial
  | s, e :: es =>
    match hs : step s e with
    | none => decidable_of_iff (P s e) (by simp [along_cons, hs])
    | some s' =>
      have : Decidable (Along step P s' es) := Along.decidable s' es
      decidable_of_iff (P s e ∧ Along step P s' es) (by simp [along_cons, hs])

/-- A condition on the event alone holds along every run of events that meet it. -/
theorem along_of_forall {P : ε → Prop} {es : List ε} (h : ∀ e ∈ es, P e) (s : σ) :
    Along step (fun _ e => P e) s es := by
  induction es generalizing s with
  | nil => trivial
  | cons e es ih =>
    exact ⟨h e (by simp), fun s' _ => ih (fun e' he' => h e' (by simp [he'])) s'⟩

theorem Along.mono {P Q : σ → ε → Prop} (hPQ : ∀ s e, P s e → Q s e) {s : σ} {es : List ε}
    (h : Along step P s es) : Along step Q s es := by
  induction es generalizing s with
  | nil => trivial
  | cons e es ih => exact ⟨hPQ s e h.1, fun s' hs' => ih (h.2 s' hs')⟩

theorem Along.and {P Q : σ → ε → Prop} {s : σ} {es : List ε} (hP : Along step P s es)
    (hQ : Along step Q s es) : Along step (fun s e => P s e ∧ Q s e) s es := by
  induction es generalizing s with
  | nil => trivial
  | cons e es ih => exact ⟨⟨hP.1, hQ.1⟩, fun s' hs' => ih (hP.2 s' hs') (hQ.2 s' hs')⟩

/-- What holds along a run holds along the rest of it, from any state on the way. -/
theorem Along.of_exec {P : σ → ε → Prop} {s s' : σ} {es fs : List ε}
    (h : Along step P s (es ++ fs)) (hrun : exec step s es = some s') : Along step P s' fs := by
  induction es generalizing s with
  | nil =>
    cases hrun
    exact h
  | cons e es ih =>
    obtain ⟨s₁, hs₁, hrest⟩ := exec_cons_eq_some.mp hrun
    exact ih (h.2 s₁ hs₁) hrest

/-- What holds along a run holds along its first steps. -/
theorem Along.of_prefix {P : σ → ε → Prop} {s : σ} {es fs : List ε} (h : Along step P s es)
    (hfs : fs <+: es) : Along step P s fs := by
  induction es generalizing s fs with
  | nil =>
    obtain rfl := List.prefix_nil.mp hfs
    trivial
  | cons e es ih =>
    cases fs with
    | nil => trivial
    | cons f fs =>
      obtain ⟨rfl, hfs'⟩ := List.cons_prefix_cons.mp hfs
      exact ⟨h.1, fun s' hs' => ih (h.2 s' hs') hfs'⟩

/-- What one admitted step preserves, an admitted run preserves. -/
theorem exec_invariant {I : σ → Prop} {P : σ → ε → Prop}
    (hstep : ∀ s e s', I s → P s e → step s e = some s' → I s')
    {s s' : σ} {es : List ε} (hs : I s) (hP : Along step P s es)
    (hrun : exec step s es = some s') : I s' := by
  induction es generalizing s with
  | nil =>
    cases hrun
    exact hs
  | cons e es ih =>
    obtain ⟨s₁, hs₁, hrest⟩ := exec_cons_eq_some.mp hrun
    exact ih (hstep s e s₁ hs hP.1 hs₁) (hP.2 s₁ hs₁) hrest

/-- If the invariant makes every admitted step meet `Q`, then every step of an admitted run
meets `Q`. -/
theorem along_of_invariant {I : σ → Prop} {P Q : σ → ε → Prop}
    (hstep : ∀ s e s', I s → P s e → step s e = some s' → I s')
    (hQ : ∀ s e, I s → P s e → Q s e)
    {s : σ} {es : List ε} (hs : I s) (hP : Along step P s es) : Along step Q s es := by
  induction es generalizing s with
  | nil => trivial
  | cons e es ih =>
    exact ⟨hQ s e hs hP.1, fun s' hs' => ih (hstep s e s' hs hP.1 hs') (hP.2 s' hs')⟩

/-- A property of states holds in every state of a run, the last one included. -/
def Always (step : σ → ε → Option σ) (I : σ → Prop) (s : σ) (es : List ε) : Prop :=
  ∀ fs, fs <+: es → ∀ s', exec step s fs = some s' → I s'

theorem always_nil {I : σ → Prop} {s : σ} : Always step I s [] ↔ I s := by
  constructor
  · intro h
    exact h [] List.prefix_rfl s rfl
  · intro h fs hfs s' hs'
    obtain rfl := List.prefix_nil.mp hfs
    cases hs'
    exact h

/-- A property always holds in a run iff it holds at its start and always in the rest. -/
theorem always_cons {I : σ → Prop} {s : σ} {e : ε} {es : List ε} :
    Always step I s (e :: es) ↔ I s ∧ ∀ s', step s e = some s' → Always step I s' es := by
  constructor
  · intro h
    refine ⟨h [] (by simp) s rfl, fun s' hs' fs hfs s'' hs'' => ?_⟩
    apply h (e :: fs) (by simpa using hfs) s''
    exact exec_cons_eq_some.mpr ⟨s', hs', hs''⟩
  · rintro ⟨h0, hrest⟩ fs hfs s'' hs''
    -- a prefix is empty, or begins with the first step
    cases fs with
    | nil =>
      cases hs''
      exact h0
    | cons f fs =>
      obtain ⟨rfl, hfs'⟩ := List.cons_prefix_cons.mp hfs
      obtain ⟨s', hs', hrun⟩ := exec_cons_eq_some.mp hs''
      exact hrest s' hs' fs hfs' s'' hrun

/-- An invariant of the admitted steps holds in every state of an admitted run. -/
theorem always_of_invariant {I : σ → Prop} {P : σ → ε → Prop}
    (hstep : ∀ s e s', I s → P s e → step s e = some s' → I s')
    {s : σ} {es : List ε} (hs : I s) (hP : Along step P s es) : Always step I s es := by
  induction es generalizing s with
  | nil => exact always_nil.mpr hs
  | cons e es ih =>
    exact always_cons.mpr
      ⟨hs, fun s' hs' => ih (hstep s e s' hs hP.1 hs') (hP.2 s' hs')⟩

/-- In a run whose events all meet `R`, a property always holds exactly when they meet `P` too, if
such events preserve an invariant that implies it and every other one leads to a state without
it. -/
theorem always_iff_along_of {I Q : σ → Prop} {P R : σ → ε → Prop} (hQ : ∀ s, I s → Q s)
    (hstep : ∀ s e s', I s → R s e → P s e → step s e = some s' → I s')
    (hbreak : ∀ s e, I s → R s e → ¬ P s e → ∃ s', step s e = some s' ∧ ¬ Q s')
    {s : σ} {es : List ε} (hs : I s) (hR : Along step R s es) :
    Always step Q s es ↔ Along step P s es := by
  induction es generalizing s with
  | nil => exact ⟨fun _ => trivial, fun _ => always_nil.mpr (hQ s hs)⟩
  | cons e es ih =>
    obtain ⟨he, hR⟩ := hR
    rw [always_cons, along_cons]
    constructor
    · rintro ⟨-, hrest⟩
      have hP : P s e := by
        -- the first event that is not admitted leads to a state without the property
        by_contra hP
        obtain ⟨s', hs', hQ'⟩ := hbreak s e hs he hP
        exact hQ' ((hrest s' hs') [] List.nil_prefix s' rfl)
      refine ⟨hP, fun s' hs' => ?_⟩
      exact (ih (hstep s e s' hs he hP hs') (hR s' hs')).mp (hrest s' hs')
    · rintro ⟨hP, hrest⟩
      refine ⟨hQ s hs, fun s' hs' => ?_⟩
      exact (ih (hstep s e s' hs he hP hs') (hR s' hs')).mpr (hrest s' hs')

/-- A property always holds in a run exactly when every event is admitted, if the admitted events
preserve an invariant that implies it and every other event leads to a state without it. -/
theorem always_iff_along {I Q : σ → Prop} {P : σ → ε → Prop} (hQ : ∀ s, I s → Q s)
    (hstep : ∀ s e s', I s → P s e → step s e = some s' → I s')
    (hbreak : ∀ s e, I s → ¬ P s e → ∃ s', step s e = some s' ∧ ¬ Q s')
    {s : σ} {es : List ε} (hs : I s) : Always step Q s es ↔ Along step P s es :=
  always_iff_along_of (R := fun _ _ => True) hQ (fun s e s' hs _ => hstep s e s' hs)
    (fun s e hs _ => hbreak s e hs) hs ((along_of_forall (P := fun _ => True) (by simp)) s)

/-- Two conditions agree along a run, if they agree in every state of an invariant that the steps
which meet the second one preserve. -/
theorem along_iff_of_invariant {I : σ → Prop} {P Q : σ → ε → Prop} {R : ε → Prop}
    (hstep : ∀ s e s', I s → R e → P s e → step s e = some s' → I s')
    (hQ : ∀ s e, I s → R e → (Q s e ↔ P s e))
    {s : σ} {es : List ε} (hs : I s) (hR : ∀ e ∈ es, R e) :
    Along step Q s es ↔ Along step P s es := by
  induction es generalizing s with
  | nil => exact Iff.rfl
  | cons e es ih =>
    have he : R e := hR e List.mem_cons_self
    -- the rest is compared only if the first event meets the second condition
    have hrest : ∀ s', P s e → step s e = some s' →
        (Along step Q s' es ↔ Along step P s' es) := fun s' hP hs' =>
      ih (hstep s e s' hs he hP hs') fun e' he' => hR e' (List.mem_cons_of_mem _ he')
    rw [along_cons, along_cons, hQ s e hs he]
    exact and_congr_right fun hP => forall₂_congr fun s' hs' => hrest s' hP hs'

/-- A function that commutes with the steps commutes with runs. -/
theorem map_exec {τ : Type*} {step' : τ → ε → Option τ} {f : σ → τ}
    (h : ∀ s e, (step s e).map f = step' (f s) e) (s : σ) (es : List ε) :
    (exec step s es).map f = exec step' (f s) es := by
  induction es generalizing s with
  | nil => rfl
  | cons e es ih =>
    rw [exec_cons, exec_cons, ← h, Option.map_bind, Option.bind_map]
    exact congrArg _ (funext fun s' => ih s')

section Refinement

variable {α β : Type*} {astep : α → β → Option α}

/-- The abstract events that answer a run: `label s e` for each step, in order. -/
def trace (step : σ → ε → Option σ) (label : σ → ε → List β) : σ → List ε → List β
  | _, [] => []
  | s, e :: es => label s e ++ (step s e).elim [] fun s' => trace step label s' es

/-- If every admitted step is answered by the abstract run `label s e`, a whole admitted run is
answered by its trace. -/
theorem exec_refines {R : σ → α → Prop} {P : σ → ε → Prop} {label : σ → ε → List β}
    (hstep : ∀ s e s' a, R s a → P s e → step s e = some s' →
      ∃ a', exec astep a (label s e) = some a' ∧ R s' a')
    {s s' : σ} {a : α} {es : List ε} (hR : R s a) (hP : Along step P s es)
    (hrun : exec step s es = some s') :
    ∃ a', exec astep a (trace step label s es) = some a' ∧ R s' a' := by
  induction es generalizing s a with
  | nil =>
    cases hrun
    exact ⟨a, rfl, hR⟩
  | cons e es ih =>
    obtain ⟨s₁, hs₁, hrest⟩ := exec_cons_eq_some.mp hrun
    obtain ⟨a₁, ha₁, hR₁⟩ := hstep s e s₁ a hR hP.1 hs₁
    obtain ⟨a', ha', hR'⟩ := ih hR₁ (hP.2 s₁ hs₁) hrest
    -- the answer to the first step, and the answers to the rest
    refine ⟨a', ?_, hR'⟩
    rw [trace, hs₁, Option.elim_some, exec_append, ha₁]
    exact ha'

end Refinement

/-! ## Machines without events -/

section Final

open Relation

variable {next : σ → Option σ} {s s' s'' : σ}

/-- No step leads out of a final state. -/
theorem eq_of_final (hfinal : next s = none)
    (h : ReflTransGen (fun s s' => next s = some s') s s') : s' = s := by
  rcases h.cases_head with heq | ⟨t, ht, -⟩
  · exact heq.symm
  · rw [hfinal] at ht
    cases ht

/-- A final state that is reached from somewhere is reached from every state between. -/
theorem reaches_final (hfinal : next s'' = none)
    (h : ReflTransGen (fun s s' => next s = some s') s s')
    (h' : ReflTransGen (fun s s' => next s = some s') s s'') :
    ReflTransGen (fun s s' => next s = some s') s' s'' := by
  have hunique : Relator.RightUnique fun s s' : σ => next s = some s' :=
    fun _ _ _ hb hc => Option.some.inj (hb.symm.trans hc)
  rcases ReflTransGen.total_of_right_unique hunique h h' with hrun | hrun
  · exact hrun
  · rw [eq_of_final hfinal hrun]

end Final

end Transition
