import Mathlib

/-!
# Texts given to `printf` as its format

A format without arguments: a character that is not the mark (`%`) is printed, two marks print one, and after a mark
with anything else behind it every output is possible.

* `prints_eq`: a text without marks is printed as it is.
* `prints_thin`: one of the outputs is the text with one mark less in every pair and without the other marks.
* `thin_length_lt`: that output is shorter when there was a mark.
-/

namespace Printf

variable {α : Type*} [DecidableEq α] {pct : α}

/-- The outputs of a format that gets no arguments. -/
inductive Prints (pct : α) : List α → List α → Prop where
  | nil : Prints pct [] []
  | plain {c : α} {f o : List α} : c ≠ pct → Prints pct f o → Prints pct (c :: f) (c :: o)
  | pair {f o : List α} : Prints pct f o → Prints pct (pct :: pct :: f) (pct :: o)
  | undefined {f : List α} (o : List α) : f.head? ≠ some pct → Prints pct (pct :: f) o

/-- One mark for two, and none for one. -/
def thin (pct : α) : List α → List α
  | [] => []
  | [c] => if c = pct then [] else [c]
  | c :: d :: f =>
    if c = pct then if d = pct then pct :: thin pct f else thin pct (d :: f)
    else c :: thin pct (d :: f)

theorem thin_cons {c : α} (hc : c ≠ pct) (f : List α) : thin pct (c :: f) = c :: thin pct f := by
  cases f with
  | nil => simp [thin, hc]
  | cons d f => rw [thin, if_neg hc]

theorem thin_pair (f : List α) : thin pct (pct :: pct :: f) = pct :: thin pct f := by
  rw [thin, if_pos rfl, if_pos rfl]

/-- A mark with something else behind it is dropped. -/
theorem thin_single {f : List α} (hf : f.head? ≠ some pct) : thin pct (pct :: f) = thin pct f := by
  cases f with
  | nil => simp [thin]
  | cons d f =>
    have hd : d ≠ pct := fun h => hf (by rw [h]; rfl)
    rw [thin, if_pos rfl, if_neg hd]

/-- Induction over a text by what it begins with: an ordinary character, two marks, or one mark. -/
theorem text_induction (pct : α) {P : List α → Prop} (hnil : P []) (hplain : ∀ c f, c ≠ pct → P f → P (c :: f))
    (hpair : ∀ f, P f → P (pct :: pct :: f)) (hsingle : ∀ f, f.head? ≠ some pct → P f → P (pct :: f)) :
    ∀ f, P f := by
  intro f
  induction hn : f.length using Nat.strong_induction_on generalizing f with
  | _ n ih =>
    cases f with
    | nil => exact hnil
    | cons c f =>
      rw [List.length_cons] at hn
      by_cases hc : c = pct
      · subst hc
        by_cases hf : f.head? = some c
        · obtain ⟨f', rfl⟩ : ∃ f', f = c :: f' := List.head?_eq_some_iff.1 hf
          rw [List.length_cons] at hn
          exact hpair f' (ih f'.length (by omega) f' rfl)
        · exact hsingle f hf (ih f.length (by omega) f rfl)
      · exact hplain c f hc (ih f.length (by omega) f rfl)

/-- **One of the outputs.** -/
theorem prints_thin (f : List α) : Prints pct f (thin pct f) := by
  refine text_induction pct (P := fun f => Prints pct f (thin pct f)) ?_ ?_ ?_ ?_ f
  · exact .nil
  · intro c f hc h
    rw [thin_cons hc]
    exact .plain hc h
  · intro f h
    rw [thin_pair]
    exact .pair h
  · intro f hf _
    exact .undefined _ hf

theorem thin_length_le (pct : α) (f : List α) : (thin pct f).length ≤ f.length := by
  refine text_induction pct (P := fun f => (thin pct f).length ≤ f.length) ?_ ?_ ?_ ?_ f
  · exact le_rfl
  · intro c f hc h
    rw [thin_cons hc, List.length_cons, List.length_cons]
    omega
  · intro f h
    rw [thin_pair, List.length_cons, List.length_cons, List.length_cons]
    omega
  · intro f hf h
    rw [thin_single hf, List.length_cons]
    omega

theorem thin_subset (f : List α) : thin pct f ⊆ f := by
  refine text_induction pct (P := fun f => thin pct f ⊆ f) ?_ ?_ ?_ ?_ f
  · exact List.Subset.refl _
  · intro c f hc h
    rw [thin_cons hc]
    exact List.cons_subset_cons c h
  · intro f h
    rw [thin_pair]
    exact List.cons_subset_cons pct (List.Subset.trans h (List.subset_cons_self pct f))
  · intro f hf h
    rw [thin_single hf]
    exact List.Subset.trans h (List.subset_cons_self pct f)

/-- **A mark is lost.** -/
theorem thin_length_lt {f : List α} : pct ∈ f → (thin pct f).length < f.length := by
  refine text_induction pct (P := fun f => pct ∈ f → (thin pct f).length < f.length) ?_ ?_ ?_ ?_ f
  · intro h
    exact absurd h (by simp)
  · intro c f hc ih h
    have hf : pct ∈ f := (List.mem_cons.1 h).resolve_left (Ne.symm hc)
    have := ih hf
    rw [thin_cons hc, List.length_cons, List.length_cons]
    omega
  · intro f _ _
    have := thin_length_le pct f
    rw [thin_pair, List.length_cons, List.length_cons, List.length_cons]
    omega
  · intro f hf _ _
    have := thin_length_le pct f
    rw [thin_single hf, List.length_cons]
    omega

theorem thin_self {f : List α} (hf : pct ∉ f) : thin pct f = f := by
  induction f with
  | nil => rfl
  | cons c f ih =>
    rw [List.mem_cons, not_or] at hf
    rw [thin_cons (Ne.symm hf.1), ih hf.2]

/-- A part without marks stays. -/
theorem thin_append {p : List α} (hp : pct ∉ p) (f : List α) : thin pct (p ++ f) = p ++ thin pct f := by
  induction p with
  | nil => rfl
  | cons c p ih =>
    rw [List.mem_cons, not_or] at hp
    rw [List.cons_append, thin_cons (Ne.symm hp.1), ih hp.2, List.cons_append]

omit [DecidableEq α] in
/-- **A text without marks is printed as it is.** -/
theorem prints_eq {f o : List α} (hf : pct ∉ f) (h : Prints pct f o) : o = f := by
  induction h with
  | nil => rfl
  | plain hc _ ih =>
    rw [List.mem_cons, not_or] at hf
    rw [ih hf.2]
  | pair _ _ => exact absurd List.mem_cons_self hf
  | undefined _ _ => exact absurd List.mem_cons_self hf

end Printf
