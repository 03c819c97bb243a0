import Mathlib

/-!
# Runs of guarded steps

A system is a partial step function: `step s x` is `none` where the step `x` is not possible in `s`. A
run is a list of steps.

* `exec`: the state behind a run.
* `Upholds`: a property of every state that a run passes.
* `Along`: a relation that holds of every step of a run, between the states around it.
* `Orderly`: a condition on every step of a run, in the state in which it is taken.
* `upholds_iff_orderly`: when every step that meets the condition keeps an invariant that gives the
  property, and every other step breaks the property, the runs that uphold the property are the
  orderly ones. `along_iff_orderly` is the same for a relation.
* `exec_simulated`: a run that another system goes along with, step by step.
-/

namespace Runs

variable {σ ε : Type*} (step : σ → ε → Option σ)

/-- The state behind a run. -/
def exec : σ → List ε → Option σ
  | s, [] => some s
  | s, x :: xs => (step s x).bind (exec · xs)

/-- `P` holds in every state that the run passes, the first included. -/
def Upholds (P : σ → Prop) : σ → List ε → Prop
  | s, [] => P s
  | s, x :: xs => P s ∧ ∀ t, step s x = some t → Upholds P t xs

/-- `R` holds of every step that the run takes. -/
def Along (R : σ → ε → σ → Prop) : σ → List ε → Prop
  | _, [] => True
  | s, x :: xs => ∀ t, step s x = some t → R s x t ∧ Along R t xs

/-- Every step of the run is good where it is taken. -/
def Orderly (good : σ → ε → Prop) : σ → List ε → Prop
  | _, [] => True
  | s, x :: xs => ∀ t, step s x = some t → good s x ∧ Orderly good t xs

variable {step} {P I : σ → Prop} {good : σ → ε → Prop} {R : σ → ε → σ → Prop}

theorem Upholds.first {s : σ} {xs : List ε} (h : Upholds step P s xs) : P s := by
  cases xs with
  | nil => exact h
  | cons x xs => exact h.1

/-- The property holds where the run ends. -/
theorem Upholds.exec : ∀ {xs : List ε} {s t : σ}, Upholds step P s xs → exec step s xs = some t → P t := by
  intro xs
  induction xs with
  | nil =>
    intro s t h ht
    obtain rfl := Option.some.inj ht
    exact h
  | cons x xs ih =>
    intro s t h ht
    obtain ⟨r, hr, ht⟩ := Option.bind_eq_some_iff.1 ht
    exact ih (h.2 r hr) ht

/-- A run goes on from a good step. -/
theorem Orderly.cons {s t : σ} {x : ε} {xs : List ε} (hs : step s x = some t) (hg : good s x)
    (h : Orderly step good t xs) : Orderly step good s (x :: xs) := by
  intro t' ht'
  obtain rfl := Option.some.inj (hs.symm.trans ht')
  exact ⟨hg, h⟩

/-- The relation holds of the last step. -/
theorem Along.last (xs : List ε) {x : ε} : ∀ {s m t : σ}, Along step R s (xs ++ [x]) → exec step s xs = some m →
    step m x = some t → R m x t := by
  induction xs with
  | nil =>
    intro s m t h hm ht
    obtain rfl := Option.some.inj hm
    exact (h t ht).1
  | cons y xs ih =>
    intro s m t h hm ht
    obtain ⟨r, hr, hm⟩ := Option.bind_eq_some_iff.1 hm
    exact ih (h r hr).2 hm ht

/-- **Every run upholds the property** when all steps keep the invariant. -/
theorem upholds_of_inv (hP : ∀ s, I s → P s) (hstep : ∀ s x t, I s → step s x = some t → I t) :
    ∀ {xs : List ε} {s : σ}, I s → Upholds step P s xs := by
  intro xs
  induction xs with
  | nil => intro s hI; exact hP s hI
  | cons x xs ih => exact fun hI => ⟨hP _ hI, fun t ht => ih (hstep _ x t hI ht)⟩

/-- **The relation holds along every run** when all steps keep the invariant. -/
theorem along_of_inv (hstep : ∀ s x t, I s → step s x = some t → R s x t ∧ I t) :
    ∀ {xs : List ε} {s : σ}, I s → Along step R s xs := by
  intro xs
  induction xs with
  | nil => intro s _; trivial
  | cons x xs ih =>
    intro s hI t ht
    obtain ⟨hR, hI'⟩ := hstep s x t hI ht
    exact ⟨hR, ih hI'⟩

/-- **Orderly runs uphold the property** when good steps keep the invariant. -/
theorem upholds_of_orderly (hP : ∀ s, I s → P s)
    (hgood : ∀ s x t, I s → good s x → step s x = some t → I t) :
    ∀ {xs : List ε} {s : σ}, I s → Orderly step good s xs → Upholds step P s xs := by
  intro xs
  induction xs with
  | nil => intro s hI _; exact hP s hI
  | cons x xs ih =>
    intro s hI ho
    refine ⟨hP s hI, fun t ht => ?_⟩
    obtain ⟨hg, hrest⟩ := ho t ht
    exact ih (hgood s x t hI hg ht) hrest

/-- **The runs that uphold the property are the orderly ones** when, besides, every other step breaks
it. -/
theorem upholds_iff_orderly (hP : ∀ s, I s → P s)
    (hgood : ∀ s x t, I s → good s x → step s x = some t → I t)
    (hbad : ∀ s x t, I s → ¬ good s x → step s x = some t → ¬ P t) :
    ∀ {xs : List ε} {s : σ}, I s → (Upholds step P s xs ↔ Orderly step good s xs) := by
  intro xs s hI
  refine ⟨fun h => ?_, upholds_of_orderly hP hgood hI⟩
  induction xs generalizing s with
  | nil => trivial
  | cons x xs ih =>
    intro t ht
    have hg : good s x := by
      by_contra hg
      exact hbad s x t hI hg ht (h.2 t ht).first
    exact ⟨hg, ih (hgood s x t hI hg ht) (h.2 t ht)⟩

/-- **The relation holds along orderly runs** when good steps give it and keep the invariant. -/
theorem along_of_orderly (hgood : ∀ s x t, I s → good s x → step s x = some t → R s x t ∧ I t) :
    ∀ {xs : List ε} {s : σ}, I s → Orderly step good s xs → Along step R s xs := by
  intro xs
  induction xs with
  | nil => intro s _ _; trivial
  | cons x xs ih =>
    intro s hI ho t ht
    obtain ⟨hg, hrest⟩ := ho t ht
    obtain ⟨hR, hI'⟩ := hgood s x t hI hg ht
    exact ⟨hR, ih hI' hrest⟩

/-- **The relation holds along the orderly runs only.** -/
theorem along_iff_orderly (hgood : ∀ s x t, I s → good s x → step s x = some t → R s x t ∧ I t)
    (hbad : ∀ s x t, I s → ¬ good s x → step s x = some t → ¬ R s x t) :
    ∀ {xs : List ε} {s : σ}, I s → (Along step R s xs ↔ Orderly step good s xs) := by
  intro xs s hI
  refine ⟨fun h => ?_, along_of_orderly hgood hI⟩
  induction xs generalizing s with
  | nil => trivial
  | cons x xs ih =>
    intro t ht
    have hg : good s x := by
      by_contra hg
      exact hbad s x t hI hg ht (h t ht).1
    exact ⟨hg, ih (hgood s x t hI hg ht).2 (h t ht).2⟩

section Simulation

variable {τ δ : Type*} {step' : τ → δ → Option τ} {S : σ → τ → Prop} {f : ε → δ}

/-- A run that ends well has been well from its start on, when no step leaves a state that is not. -/
theorem exec_start (hstart : ∀ s x t, step s x = some t → P s) {xs : List ε} {s t : σ} (ht : exec step s xs = some t)
    (hP : P t) : P s := by
  cases xs with
  | nil =>
    obtain rfl := Option.some.inj ht
    exact hP
  | cons x xs =>
    obtain ⟨r, hr, -⟩ := Option.bind_eq_some_iff.1 ht
    exact hstart s x r hr

/-- **A run that ends well is simulated** when each of its steps is. -/
theorem exec_simulated (hstart : ∀ s x t, step s x = some t → P s)
    (hstep : ∀ s x t s', S s s' → step s x = some t → P t → ∃ t', step' s' (f x) = some t' ∧ S t t') :
    ∀ {xs : List ε} {s t : σ} {s' : τ}, S s s' → exec step s xs = some t → P t →
      ∃ t', exec step' s' (xs.map f) = some t' ∧ S t t' := by
  intro xs
  induction xs with
  | nil =>
    intro s t s' hs ht _
    obtain rfl := Option.some.inj ht
    exact ⟨s', rfl, hs⟩
  | cons x xs ih =>
    intro s t s' hs ht hP
    obtain ⟨r, hr, ht⟩ := Option.bind_eq_some_iff.1 ht
    obtain ⟨r', hr', hsim⟩ := hstep s x r s' hs hr (exec_start hstart ht hP)
    obtain ⟨t', ht', hsim'⟩ := ih hsim ht hP
    refine ⟨t', ?_, hsim'⟩
    rw [List.map_cons, exec, hr', Option.bind_some, ht']

end Simulation

end Runs
