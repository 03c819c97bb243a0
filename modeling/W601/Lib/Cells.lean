import Mathlib

/-!
# Writing into a list of cells

* `overwrite`: a write at an offset of a file, which may extend it. Writes that follow each
  other are one write of the concatenation (`overwrite_append`), a write that reaches the
  old end leaves nothing else (`overwrite_of_le`), and writing what is there changes nothing
  (`overwrite_self`).
* `mergeAt`: a write at an offset that combines each cell with the data, as a flash does between
  two erases. Merges that follow each other are one merge (`mergeAt_append`), and a merge leaves the
  data where every cell takes it (`first_mergeAt_iff`).
-/

namespace Cells

variable {α β : Type*}

/-- The file `c` after the data `d` is written at offset `p`. -/
def overwrite (c : List α) (p : ℕ) (d : List α) : List α := c.take p ++ d ++ c.drop (p + d.length)

@[simp] theorem overwrite_nil (c : List α) (p : ℕ) : overwrite c p [] = c := by simp [overwrite]

/-- **Consecutive writes** are one write of the concatenation. -/
theorem overwrite_append {c d e : List α} {p : ℕ} (hp : p ≤ c.length) :
    overwrite (overwrite c p d) (p + d.length) e = overwrite c p (d ++ e) := by
  have ht : (c.take p).length = p := by simp [hp]
  have h1 : (c.take p ++ d ++ c.drop (p + d.length)).take (p + d.length) = c.take p ++ d := by
    apply List.take_left'
    simp [ht]
  have h2 : (c.take p ++ d ++ c.drop (p + d.length)).drop (p + d.length + e.length) =
      c.drop (p + d.length + e.length) := by
    rw [← List.drop_drop, List.drop_left' (by simp [ht]), List.drop_drop]
  simp only [overwrite, h1, h2, List.length_append]
  simp [Nat.add_assoc]

/-- A write from the start that covers the old content leaves exactly the data. -/
theorem overwrite_of_le {c d : List α} (h : c.length ≤ d.length) : overwrite c 0 d = d := by
  simp [overwrite, List.drop_eq_nil_of_le h]

/-- A write into the padding behind `c`. -/
theorem overwrite_padding (c d : List α) (n : ℕ) (x : α) :
    overwrite (c ++ List.replicate n x) c.length d = c ++ d ++ List.replicate (n - d.length) x := by
  rw [overwrite, List.take_left, ← List.drop_drop, List.drop_left, List.drop_replicate]

theorem overwrite_length {c d : List α} {p : ℕ} (h : p + d.length ≤ c.length) : (overwrite c p d).length = c.length := by
  simp only [overwrite, List.length_append, List.length_take, List.length_drop]
  omega

/-- A write that starts inside of a file, or at its end, ends at the end of the file or extends it. -/
theorem length_overwrite {c : List α} {p : ℕ} (d : List α) (hp : p ≤ c.length) :
    (overwrite c p d).length = max c.length (p + d.length) := by
  simp only [overwrite, List.length_append, List.length_take, List.length_drop]
  omega

/-- The cells in front of a write. -/
theorem take_overwrite {c : List α} {p k : ℕ} (d : List α) (hk : k ≤ p) (hp : p ≤ c.length) :
    (overwrite c p d).take k = c.take k := by
  rw [overwrite, List.append_assoc, List.take_append_of_le_length (by rw [List.length_take]; omega), List.take_take,
    Nat.min_eq_left hk]

/-- The cells behind a write. -/
theorem drop_overwrite {c d : List α} {p k : ℕ} (hk : p + d.length ≤ k) (hp : p ≤ c.length) :
    (overwrite c p d).drop k = c.drop k := by
  have hlen : (c.take p ++ d).length = p + d.length := by simp [hp]
  rw [overwrite, List.drop_append, hlen, List.drop_eq_nil_of_le (by omega), List.nil_append, List.drop_drop]
  congr 1
  omega

/-- A write over the start of another one. -/
theorem overwrite_overwrite {c d e : List α} {p : ℕ} (he : e.length ≤ d.length) (hp : p ≤ c.length) :
    overwrite (overwrite c p d) p e = overwrite c p (e ++ d.drop e.length) := by
  have hlen : p + (e ++ d.drop e.length).length = p + d.length := by
    rw [List.length_append, List.length_drop]
    omega
  have htake : (c.take p).length = p := by simp [hp]
  have hdrop : (overwrite c p d).drop (p + e.length) = d.drop e.length ++ c.drop (p + d.length) := by
    rw [overwrite, List.append_assoc, ← List.drop_drop, List.drop_left' htake, List.drop_append_of_le_length he]
  calc overwrite (overwrite c p d) p e
      = (overwrite c p d).take p ++ e ++ (overwrite c p d).drop (p + e.length) := rfl
    _ = c.take p ++ e ++ (d.drop e.length ++ c.drop (p + d.length)) := by rw [take_overwrite d le_rfl hp, hdrop]
    _ = overwrite c p (e ++ d.drop e.length) := by
      rw [overwrite, hlen]
      simp only [List.append_assoc]

/-- A write behind the first `k` cells is one into the others. -/
theorem overwrite_drop {c : List α} {p k : ℕ} (d : List α) (hk : k ≤ p) (hp : p ≤ c.length) :
    (overwrite c p d).drop k = overwrite (c.drop k) (p - k) d := by
  have hshift : k + (p - k + d.length) = p + d.length := by omega
  rw [overwrite, overwrite, List.append_assoc, List.drop_append_of_le_length (by rw [List.length_take]; omega),
    List.drop_take, List.drop_drop, hshift, List.append_assoc]

/-- The cells of a write. -/
theorem slice_overwrite {c : List α} {p : ℕ} (d : List α) (hp : p ≤ c.length) :
    ((overwrite c p d).drop p).take d.length = d := by
  rw [overwrite_drop d le_rfl hp, Nat.sub_self, overwrite, List.take_zero, List.nil_append, List.take_left]

/-- Writing what is there changes nothing. -/
theorem overwrite_self {c d : List α} {p : ℕ} (h : (c.drop p).take d.length = d) : overwrite c p d = c := by
  have hrest : d ++ c.drop (p + d.length) = c.drop p := by
    rw [← List.drop_drop]
    nth_rewrite 1 [← h]
    exact List.take_append_drop _ _
  rw [overwrite, List.append_assoc, hrest, List.take_append_drop]

/-- The cells `c` after `d` is combined into them at offset `p`. -/
def mergeAt (f : α → β → α) (c : ℕ → α) (p : ℕ) (d : List β) : ℕ → α := fun i =>
  if p ≤ i then
    match d[i - p]? with
    | some b => f (c i) b
    | none => c i
  else c i

@[simp] theorem mergeAt_nil (f : α → β → α) (c : ℕ → α) (p : ℕ) : mergeAt f c p [] = c := by
  funext i
  simp [mergeAt]

/-- **Consecutive merges** are one merge of the concatenation. -/
theorem mergeAt_append (f : α → β → α) (c : ℕ → α) (p : ℕ) (d e : List β) :
    mergeAt f (mergeAt f c p d) (p + d.length) e = mergeAt f c p (d ++ e) := by
  funext i
  by_cases hp : p ≤ i
  · by_cases hd : i < p + d.length
    · simp [mergeAt, hp, show ¬ p + d.length ≤ i by omega, List.getElem?_append_left (show i - p < d.length by omega)]
    · have hnone : d[i - p]? = none := List.getElem?_eq_none (by omega)
      simp only [mergeAt, if_pos hp, if_pos (show p + d.length ≤ i by omega), hnone,
        List.getElem?_append_right (show d.length ≤ i - p by omega), Nat.sub_sub]
  · simp [mergeAt, hp, show ¬ p + d.length ≤ i by omega]

/-- The first `n` cells. -/
def first (c : ℕ → α) (n : ℕ) : List α := (List.range n).map c

@[simp] theorem first_length (c : ℕ → α) (n : ℕ) : (first c n).length = n := by simp [first]

/-- **What a merge from the start leaves** is the data exactly when every cell takes its datum. -/
theorem first_mergeAt_iff {f : α → α → α} {c : ℕ → α} {d : List α} :
    first (mergeAt f c 0 d) d.length = d ↔ ∀ i (h : i < d.length), f (c i) d[i] = d[i] := by
  have hcell : ∀ i (h : i < d.length), mergeAt f c 0 d i = f (c i) d[i] := fun i h => by
    simp [mergeAt, List.getElem?_eq_getElem h]
  constructor
  · intro h i hi
    have hget : (first (mergeAt f c 0 d) d.length)[i]? = d[i]? := by rw [h]
    rw [List.getElem?_eq_getElem (by simpa using hi), List.getElem?_eq_getElem hi, Option.some.injEq] at hget
    rw [← hcell i hi]
    simpa [first] using hget
  · intro h
    apply List.ext_getElem (by simp)
    intro i h1 h2
    simp only [first, List.getElem_map, List.getElem_range]
    rw [hcell i h2, h i h2]

/-- A merge that every cell takes stands behind the cells in front of it. -/
theorem first_mergeAt_append {f : α → α → α} {c : ℕ → α} {p : ℕ} {d : List α}
    (h : ∀ i (hi : i < d.length), f (c (p + i)) d[i] = d[i]) : first (mergeAt f c p d) (p + d.length) = first c p ++ d := by
  apply List.ext_getElem (by simp)
  intro j h1 h2
  simp only [first_length] at h1
  simp only [first, List.getElem_map, List.getElem_range, List.getElem_append, List.length_map, List.length_range]
  by_cases hj : j < p
  · rw [dif_pos hj, mergeAt, if_neg (by omega)]
  · obtain ⟨i, rfl⟩ : ∃ i, j = p + i := ⟨j - p, by omega⟩
    have hi : i < d.length := by omega
    have hsub : p + i - p = i := by omega
    rw [dif_neg hj, mergeAt, if_pos (by omega)]
    simp only [hsub, List.getElem?_eq_getElem hi]
    exact h i hi

end Cells
