import Mathlib.Data.List.Infix
import Mathlib.Tactic.TypeStar

/-!
# Partial Machines with Outputs

A machine takes one labelled step at a time, answers each step with an output
and may be **undefined** on a step (`none`): the modelled program promises
nothing from there on. Runs are finite lists of labels.

## Key Results

- `run_append` / `run_concat`: runs compose
- `throughout_iff_along`: a property of runs that is kept by exactly the steps
  meeting a condition holds throughout a run iff every step meets the condition
- `run_simulation`: a relation to an abstract state, kept by every step, holds
  at the end of every run
- `run_invariant`: the same for a property of the state and the outputs
- `run_bisimulation`: two machines that answer every step alike answer every run alike
-/

namespace DealerBot.Foundations

variable {σ ε ω α : Type*}

/-- A deterministic machine: states `σ`, labels `ε`, outputs `ω`. -/
structure Machine (σ ε ω : Type*) where
  /-- One step; `none` when the behaviour is undefined. -/
  step : σ → ε → Option (σ × ω)

namespace Machine

/-! ## §1 Runs -/

/-- Execute a list of labels, collecting the outputs in order. -/
def run (M : Machine σ ε ω) : σ → List ε → Option (σ × List ω)
  | s, [] => some (s, [])
  | s, e :: es =>
      match M.step s e with
      -- nothing is known about the rest of the run
      | none => none
      | some (s', o) =>
          match M.run s' es with
          | none => none
          | some (s'', os) => some (s'', o :: os)

@[simp] theorem run_nil (M : Machine σ ε ω) (s : σ) : M.run s [] = some (s, []) := rfl

/-- The first step of a run. -/
theorem run_cons_iff {M : Machine σ ε ω} {s t : σ} {e : ε} {es : List ε} {os : List ω} :
    M.run s (e :: es) = some (t, os) ↔
      ∃ s' o os', M.step s e = some (s', o) ∧ M.run s' es = some (t, os') ∧ os = o :: os' := by
  simp only [run]
  cases M.step s e with
  | none => simp
  | some r =>
    obtain ⟨s', o⟩ := r
    cases hrun : M.run s' es with
    | none => simp [hrun]
    | some r' =>
      obtain ⟨t', os'⟩ := r'
      simp [hrun, eq_comm]

/-- A run of `xs ++ ys` is a run of `xs` followed by a run of `ys`. -/
theorem run_append (M : Machine σ ε ω) {s₁ s₂ : σ} {xs ys : List ε} {os₁ : List ω}
    (h : M.run s₁ xs = some (s₂, os₁)) :
    M.run s₁ (xs ++ ys) = (M.run s₂ ys).map fun r => (r.1, os₁ ++ r.2) := by
  induction xs generalizing s₁ os₁ with
  | nil =>
    simp only [run_nil, Option.some.injEq, Prod.mk.injEq] at h
    obtain ⟨rfl, rfl⟩ := h
    rw [List.nil_append]
    cases hrun : M.run s₁ ys <;> simp
  | cons x xs ih =>
    -- both runs start with the same step
    obtain ⟨s', o, os, hstep, hrun, rfl⟩ := run_cons_iff.mp h
    simp only [List.cons_append, run, hstep, ih hrun]
    cases M.run s₂ ys <;> simp

/-- A run that exists for `xs ++ ys` exists for `xs`. -/
theorem run_of_append (M : Machine σ ε ω) {s : σ} {xs ys : List ε} {r : σ × List ω}
    (h : M.run s (xs ++ ys) = some r) :
    ∃ s' os, M.run s xs = some (s', os) := by
  induction xs generalizing s r with
  | nil => exact ⟨s, [], rfl⟩
  | cons x xs ih =>
    obtain ⟨s', o, os, hstep, hrun, -⟩ := run_cons_iff.mp h
    obtain ⟨t, os', ht⟩ := ih hrun
    exact ⟨t, o :: os', run_cons_iff.mpr ⟨s', o, os', hstep, ht, rfl⟩⟩

/-- Extending a run by one label. -/
theorem run_concat (M : Machine σ ε ω) {s s' : σ} {xs : List ε} {os : List ω} (e : ε)
    (h : M.run s xs = some (s', os)) :
    M.run s (xs ++ [e]) = (M.step s' e).map fun r => (r.1, os ++ [r.2]) := by
  rw [run_append M h]
  simp only [run]
  cases M.step s' e <;> simp

/-- The last step of a run of `xs ++ [e]`. -/
theorem run_concat_inv (M : Machine σ ε ω) {s t : σ} {xs : List ε} {e : ε} {os : List ω}
    (h : M.run s (xs ++ [e]) = some (t, os)) :
    ∃ s' os' o, M.run s xs = some (s', os') ∧ M.step s' e = some (t, o) ∧ os = os' ++ [o] := by
  obtain ⟨s', os', hs'⟩ := run_of_append M h
  rw [run_concat M e hs'] at h
  cases hstep : M.step s' e with
  | none => simp [hstep] at h
  | some r =>
    obtain ⟨t', o⟩ := r
    simp only [hstep, Option.map_some, Option.some.injEq, Prod.mk.injEq] at h
    obtain ⟨rfl, rfl⟩ := h
    exact ⟨s', os', o, hs', hstep, rfl⟩

/-! ## §2 Properties along runs -/

/-- `P` holds at every point of the run of `es` from `s`, and the run is
    defined there: `P` sees the labels consumed, the state reached and the
    outputs produced so far. -/
def Throughout (M : Machine σ ε ω) (P : List ε → σ → List ω → Prop)
    (s : σ) (es : List ε) : Prop :=
  ∀ pre, pre <+: es → ∃ s' os, M.run s pre = some (s', os) ∧ P pre s' os

/-- Every step of the run of `es` from `s` meets the condition `C`, a condition
    on the state before the step and on its label. -/
def Along (M : Machine σ ε ω) (C : σ → ε → Prop) (s : σ) (es : List ε) : Prop :=
  ∀ pre e, pre ++ [e] <+: es → ∀ s' os, M.run s pre = some (s', os) → C s' e

/-- A run throughout which `P` holds is defined, and `P` holds at its end. -/
theorem Throughout.at_end {M : Machine σ ε ω} {P : List ε → σ → List ω → Prop}
    {s : σ} {es : List ε} (h : M.Throughout P s es) :
    ∃ s' os, M.run s es = some (s', os) ∧ P es s' os :=
  h es (List.prefix_refl es)

/-- A property of all prefixes of a run, one event at a time. -/
theorem throughout_concat {M : Machine σ ε ω} {P : List ε → σ → List ω → Prop}
    {s : σ} {es : List ε} {e : ε} :
    M.Throughout P s (es ++ [e]) ↔
      M.Throughout P s es ∧
        ∃ s' os, M.run s (es ++ [e]) = some (s', os) ∧ P (es ++ [e]) s' os := by
  refine ⟨?_, ?_⟩
  · intro h
    exact ⟨fun pre hpre => h pre (hpre.trans (List.prefix_append es [e])), h.at_end⟩
  · intro ⟨h, hend⟩ pre hpre
    -- a prefix of `es ++ [e]` is the whole list or a prefix of `es`
    rcases List.prefix_concat_iff.mp hpre with rfl | hpre'
    · exact hend
    · exact h pre hpre'

/-- A condition on all steps of a run, one event at a time. -/
theorem along_concat {M : Machine σ ε ω} {C : σ → ε → Prop} {s : σ} {es : List ε} {e : ε} :
    M.Along C s (es ++ [e]) ↔
      M.Along C s es ∧ ∀ s' os, M.run s es = some (s', os) → C s' e := by
  refine ⟨?_, ?_⟩
  · intro h
    exact ⟨fun pre a hpre => h pre a (hpre.trans (List.prefix_append es [e])),
      h es e (List.prefix_refl _)⟩
  · intro ⟨h, hlast⟩ pre a hpre
    rcases List.prefix_concat_iff.mp hpre with heq | hpre'
    · -- the last step
      obtain ⟨rfl, hae⟩ := List.append_inj' heq rfl
      cases hae
      exact hlast
    · exact h pre a hpre'

/-- A weaker condition holds along the same runs. -/
theorem Along.imp {M : Machine σ ε ω} {C D : σ → ε → Prop} {s : σ} {es : List ε}
    (h : M.Along C s es) (himp : ∀ s e, C s e → D s e) : M.Along D s es :=
  fun pre e hpre s' os hrun => himp s' e (h pre e hpre s' os hrun)

@[simp] theorem along_nil {M : Machine σ ε ω} {C : σ → ε → Prop} {s : σ} : M.Along C s [] := by
  intro pre e hpre
  simp at hpre

/-- Checking a condition along a run step by step. -/
theorem along_cons {M : Machine σ ε ω} {C : σ → ε → Prop} {s : σ} {e : ε} {es : List ε}
    (he : C s e) (hes : ∀ s' o, M.step s e = some (s', o) → M.Along C s' es) :
    M.Along C s (e :: es) := by
  intro pre a hpre t os hrun
  cases pre with
  | nil =>
    cases hrun
    obtain ⟨rfl, -⟩ := List.cons_prefix_cons.mp hpre
    exact he
  | cons x pre =>
    obtain ⟨rfl, hpre'⟩ := List.cons_prefix_cons.mp hpre
    -- a later step belongs to the run from `s'`
    obtain ⟨s', o, os', hstep, hrun', -⟩ := run_cons_iff.mp hrun
    exact hes s' o hstep pre a hpre' t os' hrun'

/-- A decidable condition along a run, by computation. -/
def checkAlong (M : Machine σ ε ω) (C : σ → ε → Prop) [∀ s e, Decidable (C s e)] :
    σ → List ε → Bool
  | _, [] => true
  | s, e :: es =>
      decide (C s e) &&
        match M.step s e with
        | none => true
        | some (s', _) => M.checkAlong C s' es

/-- A run of finitely many events can be tried out. -/
theorem along_of_checkAlong {M : Machine σ ε ω} {C : σ → ε → Prop} [∀ s e, Decidable (C s e)]
    {s : σ} {es : List ε} (h : M.checkAlong C s es = true) : M.Along C s es := by
  induction es generalizing s with
  | nil => exact along_nil
  | cons e es ih =>
    rw [checkAlong, Bool.and_eq_true, decide_eq_true_eq] at h
    refine along_cons h.1 fun s' o hstep => ih ?_
    simpa only [hstep] using h.2

/-- **Exact step conditions.** If a step from a point where `P` holds leads to
    a point where `P` holds again iff it meets `C`, then `P` holds throughout a
    run iff all its steps meet `C`. -/
theorem throughout_iff_along {M : Machine σ ε ω} {P : List ε → σ → List ω → Prop}
    {C : σ → ε → Prop} {s : σ} {es : List ε} (hinit : P [] s [])
    (hstep : ∀ pre e s' os, pre ++ [e] <+: es → P pre s' os →
      (C s' e ↔ ∃ t o, M.step s' e = some (t, o) ∧ P (pre ++ [e]) t (os ++ [o]))) :
    M.Throughout P s es ↔ M.Along C s es := by
  -- Induction from the right: the invariant is the equivalence for every prefix.
  induction es using List.reverseRecOn with
  | nil =>
    refine ⟨?_, ?_⟩
    · intro _
      exact along_nil
    · intro _ pre hpre
      rw [List.prefix_nil.mp hpre]
      exact ⟨s, [], rfl, hinit⟩
  | append_singleton es e ih =>
    have ih' := ih fun pre a s' os hpre =>
      hstep pre a s' os (hpre.trans (List.prefix_append es [e]))
    rw [throughout_concat, along_concat, ih']
    refine and_congr_right fun halong => ?_
    -- the shorter run reaches a point where `P` holds; there `hstep` decides
    obtain ⟨t, os, hrun, hP⟩ := (ih'.mpr halong).at_end
    have key := hstep es e t os (List.prefix_refl _) hP
    rw [run_concat M e hrun]
    refine ⟨?_, ?_⟩
    · intro ⟨t', os', hmap, hP'⟩ s' os'' hrun'
      rw [hrun] at hrun'
      cases hrun'
      rw [Option.map_eq_some_iff] at hmap
      obtain ⟨⟨u, o⟩, hu, heq⟩ := hmap
      cases heq
      exact key.mpr ⟨u, o, hu, hP'⟩
    · intro hC
      obtain ⟨u, o, hu, hP'⟩ := key.mp (hC t os hrun)
      exact ⟨u, os ++ [o], by rw [hu]; rfl, hP'⟩

/-- **Simulation rule**: a relation to an abstract state that every defined step
    of the run keeps, while the abstract state moves by `next`, holds at the end
    of the run. -/
theorem run_simulation {M : Machine σ ε ω} {R : σ → α → Prop} {next : α → ε → α}
    {s t : σ} {a : α} {es : List ε} {os : List ω}
    (hstep : ∀ s' a' e t' o, e ∈ es → R s' a' → M.step s' e = some (t', o) → R t' (next a' e))
    (hs : R s a) (hrun : M.run s es = some (t, os)) : R t (es.foldl next a) := by
  induction es using List.reverseRecOn generalizing t os with
  | nil =>
    cases hrun
    exact hs
  | append_singleton es e ih =>
    obtain ⟨s', os', o, hrun', hlast, rfl⟩ := run_concat_inv M hrun
    rw [List.foldl_concat]
    -- the abstract state of the shorter run moves by the last label
    refine hstep s' _ e t o (by simp) (ih ?_ hrun') hlast
    intro s' a' e' t' o' hmem
    exact hstep s' a' e' t' o' (List.mem_append_left [e] hmem)

/-- **Invariant rule**: a property of the labels, the state and the outputs that every
    step meeting a condition keeps holds at the end of every run whose steps meet it. -/
theorem run_invariant_along {M : Machine σ ε ω} {P : List ε → σ → List ω → Prop}
    {C : σ → ε → Prop} {s t : σ} {es : List ε} {os : List ω}
    (hstep : ∀ pre s' os' e t' o, P pre s' os' → C s' e → M.step s' e = some (t', o) →
      P (pre ++ [e]) t' (os' ++ [o]))
    (hs : P [] s []) (halong : M.Along C s es) (hrun : M.run s es = some (t, os)) :
    P es t os := by
  -- on the events from the end, because the invariant speaks of what has happened so far
  induction es using List.reverseRecOn generalizing t os with
  | nil =>
    cases hrun
    exact hs
  | append_singleton es e ih =>
    obtain ⟨s', os', o, hrun', hlast, rfl⟩ := run_concat_inv M hrun
    obtain ⟨halong', hlast'⟩ := along_concat.mp halong
    exact hstep es s' os' e t o (ih halong' hrun') (hlast' s' os' hrun') hlast

/-- The same for a property that every step keeps. -/
theorem run_invariant {M : Machine σ ε ω} {P : σ → List ω → Prop} {s t : σ} {es : List ε}
    {os : List ω}
    (hstep : ∀ s' os' e t' o, P s' os' → M.step s' e = some (t', o) → P t' (os' ++ [o]))
    (hs : P s []) (hrun : M.run s es = some (t, os)) : P t os :=
  run_invariant_along (P := fun _ => P) (C := fun _ _ => True)
    (fun _ s' os' e t' o h _ => hstep s' os' e t' o h) hs (fun _ _ _ _ _ _ => trivial) hrun

/-- **Bisimulation rule**: two machines that answer every label of the list alike,
    from related states to related states, answer the whole list alike. The relation
    may use the labels that are still to come. -/
theorem run_bisimulation {τ : Type*} {M : Machine σ ε ω} {N : Machine τ ε ω}
    {R : List ε → σ → τ → Prop}
    (hstep : ∀ e es s t, R (e :: es) s t →
      ∃ s' t' o, M.step s e = some (s', o) ∧ N.step t e = some (t', o) ∧ R es s' t')
    {es : List ε} {s : σ} {t : τ} (h : R es s t) :
    ∃ s' t' os, M.run s es = some (s', os) ∧ N.run t es = some (t', os) ∧ R [] s' t' := by
  induction es generalizing s t with
  | nil => exact ⟨s, t, [], rfl, rfl, h⟩
  | cons e es ih =>
    obtain ⟨s₁, t₁, o, hs₁, ht₁, h₁⟩ := hstep e es s t h
    obtain ⟨s', t', os, hs', ht', h'⟩ := ih h₁
    exact ⟨s', t', o :: os, run_cons_iff.mpr ⟨s₁, o, os, hs₁, hs', rfl⟩,
      run_cons_iff.mpr ⟨t₁, o, os, ht₁, ht', rfl⟩, h'⟩

end Machine

end DealerBot.Foundations
