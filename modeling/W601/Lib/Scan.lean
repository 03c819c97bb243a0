import Mathlib.Data.List.TakeDrop

/-!
# Reading a block that nothing ends

A reader gets what is left of a block and answers with a result, rejects it, or looks behind the end of the block. The
last is an outcome of its own: what the reader would find there is not known.

* `Scan`: the outcomes, and `item`, `advance`, `skipWhile`, `takeWhile`, `itemIf`, `startsWith`, the steps of readers.
* `Scan.Ext`: an outcome that does not look behind the block is the outcome for a longer block.
* `Ext.bind`: a reader that goes on behind another one.
* `skipWhile_ok`, `takeWhile_ok`, `startsWith_ok`: the steps as functions of lists.
-/

universe u

/-- What comes of reading. -/
inductive Scan (α : Type u) where
  | ok (a : α)
  | rejected
  | outside

namespace Scan

variable {α β γ δ : Type u}

instance : Monad Scan where
  pure := ok
  bind x f := match x with
    | ok a => f a
    | rejected => rejected
    | outside => outside

@[simp] theorem ok_bind (a : α) (f : α → Scan β) : (ok a >>= f) = f a := rfl

theorem bind_eq_ok {x : Scan α} {f : α → Scan β} {b : β} :
    (x >>= f) = ok b ↔ ∃ a, x = ok a ∧ f a = ok b := by
  cases x with
  | ok a => exact ⟨fun h => ⟨a, rfl, h⟩, fun ⟨_, ha, h⟩ => by cases ha; exact h⟩
  | rejected => exact iff_of_false (fun h => by cases h) fun ⟨_, ha, _⟩ => by cases ha
  | outside => exact iff_of_false (fun h => by cases h) fun ⟨_, ha, _⟩ => by cases ha

/-- Readers that go on in the same way behind every result. -/
theorem bind_congr {x : Scan α} {f f' : α → Scan β} (h : ∀ a, x = ok a → f a = f' a) : (x >>= f) = (x >>= f') := by
  cases x with
  | ok a => exact h a rfl
  | rejected => rfl
  | outside => rfl

/-! ## Steps -/

/-- The next cell. -/
def item : List γ → Scan (γ × List γ)
  | [] => outside
  | c :: t => ok (c, t)

@[simp] theorem item_cons (c : γ) (t : List γ) : item (c :: t) = ok (c, t) := rfl

/-- A pointer that is moved on. -/
def advance (n : ℕ) (t : List γ) : Scan (List γ) := if t.length < n then outside else ok (t.drop n)

/-- Cells that are skipped, up to the first other one. -/
def skipWhile (p : γ → Bool) : List γ → Scan (List γ)
  | [] => outside
  | c :: t => if p c then skipWhile p t else ok (c :: t)

/-- Cells that are taken, up to the first other one. -/
def takeWhile (p : γ → Bool) : List γ → Scan (List γ × List γ)
  | [] => outside
  | c :: t => if p c then takeWhile p t >>= fun q => ok (c :: q.1, q.2) else ok ([], c :: t)

/-- A cell that may be there. -/
def itemIf (p : γ → Bool) : List γ → Scan (List γ × List γ)
  | [] => outside
  | c :: t => if p c then ok ([c], t) else ok ([], c :: t)

/-- The block begins with `w`; cells are compared up to the first that differs. -/
def startsWith [DecidableEq γ] : List γ → List γ → Scan Bool
  | [], _ => ok true
  | _ :: _, [] => outside
  | c :: w, d :: t => if d = c then startsWith w t else ok false

/-! ## What a step has read -/

theorem item_ok {t u : List γ} {c : γ} (h : item t = ok (c, u)) : t = c :: u := by
  cases t with
  | nil => cases h
  | cons d t => cases h; rfl

theorem advance_ok {n : ℕ} {t u : List γ} (h : advance n t = ok u) : n ≤ t.length ∧ u = t.drop n := by
  unfold advance at h
  split_ifs at h with hn
  cases h
  exact ⟨by omega, rfl⟩

theorem skipWhile_ok {p : γ → Bool} {t u : List γ} (h : skipWhile p t = ok u) : u = t.dropWhile p ∧ u ≠ [] := by
  induction t with
  | nil => cases h
  | cons c t ih =>
    rw [skipWhile] at h
    split_ifs at h with hc
    · rw [List.dropWhile_cons_of_pos hc]
      exact ih h
    · cases h
      rw [List.dropWhile_cons_of_neg hc]
      exact ⟨rfl, List.cons_ne_nil c t⟩

theorem takeWhile_ok {p : γ → Bool} {t : List γ} {q : List γ × List γ} (h : takeWhile p t = ok q) : t.span p = q := by
  rw [List.span_eq_takeWhile_dropWhile]
  induction t generalizing q with
  | nil => cases h
  | cons c t ih =>
    rw [takeWhile] at h
    split_ifs at h with hc
    · obtain ⟨q', hq', h⟩ := bind_eq_ok.1 h
      cases h
      rw [List.takeWhile_cons_of_pos hc, List.dropWhile_cons_of_pos hc, ← ih hq']
    · cases h
      rw [List.takeWhile_cons_of_neg hc, List.dropWhile_cons_of_neg hc]

theorem startsWith_ok [DecidableEq γ] {w t : List γ} {found : Bool} (h : startsWith w t = ok found) :
    w.isPrefixOf t = found := by
  induction w generalizing t with
  | nil => cases h; rfl
  | cons c w ih =>
    cases t with
    | nil => cases h
    | cons d t =>
      rw [startsWith] at h
      split_ifs at h with hc
      · rw [List.isPrefixOf, ih h, hc, beq_self_eq_true, Bool.true_and]
      · cases h
        rw [List.isPrefixOf, beq_false_of_ne (Ne.symm hc), Bool.false_and]

/-! ## Longer blocks -/

/-- `y` is the outcome `x`, up to `R`, unless `x` looks behind its block. -/
def Ext (R : α → β → Prop) (x : Scan α) (y : Scan β) : Prop :=
  match x with
  | ok a => ∃ b, y = ok b ∧ R a b
  | rejected => y = rejected
  | outside => True

/-- The same block, with the cells `b` behind it. -/
def Behind (b : List γ) (t t' : List γ) : Prop := t' = t ++ b

/-- The same result and the same block, with the cells `b` behind it. -/
def With (b : List γ) (p p' : α × List γ) : Prop := p' = (p.1, p.2 ++ b)

theorem Ext.ok {R : α → β → Prop} {a : α} {b : β} (h : R a b) : Ext R (Scan.ok a) (Scan.ok b) := ⟨b, rfl, h⟩

theorem Ext.rejected {R : α → β → Prop} : Ext R Scan.rejected Scan.rejected := rfl

theorem Ext.outside {R : α → β → Prop} {y : Scan β} : Ext R Scan.outside y := trivial

/-- **A reader behind another one.** -/
theorem Ext.bind {R : α → β → Prop} {S : γ → δ → Prop} {x : Scan α} {y : Scan β} {f : α → Scan γ}
    {g : β → Scan δ} (h : Ext R x y) (hf : ∀ a b, R a b → Ext S (f a) (g b)) : Ext S (x >>= f) (y >>= g) := by
  cases x with
  | ok a =>
    obtain ⟨b, rfl, hab⟩ := h
    exact hf a b hab
  | rejected =>
    obtain rfl : y = .rejected := h
    exact Ext.rejected
  | outside => exact Ext.outside

section Steps

variable (b : List γ)

theorem ext_item (t : List γ) : Ext (With b) (item t) (item (t ++ b)) := by
  cases t with
  | nil => exact Ext.outside
  | cons c t => exact Ext.ok rfl

theorem ext_advance (n : ℕ) (t : List γ) : Ext (Behind b) (advance n t) (advance n (t ++ b)) := by
  unfold advance
  by_cases h : t.length < n
  · rw [if_pos h]
    exact Ext.outside
  · rw [if_neg h, if_neg (by rw [List.length_append]; omega)]
    exact Ext.ok (List.drop_append_of_le_length (by omega))

theorem ext_skipWhile (p : γ → Bool) (t : List γ) : Ext (Behind b) (skipWhile p t) (skipWhile p (t ++ b)) := by
  induction t with
  | nil => exact Ext.outside
  | cons c t ih =>
    simp only [skipWhile, List.cons_append]
    split_ifs with hc
    · exact ih
    · exact Ext.ok rfl

theorem ext_itemIf (p : γ → Bool) (t : List γ) : Ext (With b) (itemIf p t) (itemIf p (t ++ b)) := by
  cases t with
  | nil => exact Ext.outside
  | cons c t =>
    simp only [itemIf, List.cons_append]
    split_ifs with hc
    · exact Ext.ok rfl
    · exact Ext.ok rfl

theorem ext_startsWith [DecidableEq γ] (w t : List γ) : Ext Eq (startsWith w t) (startsWith w (t ++ b)) := by
  induction w generalizing t with
  | nil => cases t <;> exact Ext.ok rfl
  | cons c w ih =>
    cases t with
    | nil => exact Ext.outside
    | cons d t =>
      simp only [startsWith, List.cons_append]
      split_ifs with hc
      · exact ih t
      · exact Ext.ok rfl

theorem ext_takeWhile (p : γ → Bool) (t : List γ) :
    Ext (With b) (takeWhile p t) (takeWhile p (t ++ b)) := by
  induction t with
  | nil => exact Ext.outside
  | cons c t ih =>
    simp only [takeWhile, List.cons_append]
    split_ifs with hc
    · exact ih.bind fun q q' hq => Ext.ok (by rw [With, hq])
    · exact Ext.ok rfl

end Steps

end Scan
