import Mathlib

/-!
# Numbers from a counter that rolls over

A counter begins at 0 and counts up to `N`, then from 1 again. Each value that it comes to is handed out.

* `FreshWithin`: the elements of a list repeat at a distance only.
* `freshWithin_numbers`: the numbers repeat behind `N` of them at the earliest.
-/

namespace Rollover

variable {α β : Type*}

/-- Any `n` elements, one behind the other, are different. -/
def FreshWithin (n : ℕ) (l : List α) : Prop := ∀ window, window <:+: l → window.length ≤ n → window.Nodup

/-- The counter behind a step. -/
def next (N last : ℕ) : ℕ := (if N ≤ last then 0 else last) + 1

/-- The first `n` numbers. -/
def numbers (N n : ℕ) : List ℕ := (List.range n).map fun k => k % N + 1

/-- The counter behind `n` steps. -/
def counter (N : ℕ) : ℕ → ℕ
  | 0 => 0
  | n + 1 => n % N + 1

theorem freshWithin_of_apart {n : ℕ} {l : List α}
    (h : ∀ i j, i < j → j < i + n → j < l.length → l[i]? ≠ l[j]?) : FreshWithin n l := by
  rintro window ⟨front, back, rfl⟩ hlen
  have hindex : ∀ i < window.length, (front ++ window ++ back)[front.length + i]? = window[i]? := by
    intro i hi
    rw [List.append_assoc, List.getElem?_append_right (by omega), Nat.add_sub_cancel_left,
      List.getElem?_append_left hi]
  rw [List.nodup_iff_getElem?_ne_getElem?]
  intro i j hij hj
  rw [← hindex i (hij.trans hj), ← hindex j hj]
  apply h
  · omega
  · omega
  · simp only [List.length_append]
    omega

/-- Elements that are different under a function are. -/
theorem FreshWithin.of_map {n : ℕ} {l : List α} {f : α → β} (h : FreshWithin n (l.map f)) : FreshWithin n l := by
  intro window hw hlen
  exact List.Nodup.of_map f (h _ (hw.map f) (by rwa [List.length_map]))

theorem numbers_succ (N n : ℕ) : numbers N (n + 1) = numbers N n ++ [counter N (n + 1)] := by
  rw [numbers, List.range_succ, List.map_append]
  rfl

theorem mem_numbers {N n a : ℕ} (hN : 0 < N) (h : a ∈ numbers N n) : 1 ≤ a ∧ a ≤ N := by
  obtain ⟨k, -, rfl⟩ := List.mem_map.1 h
  have hk := Nat.mod_lt k hN
  omega

theorem counter_le {N : ℕ} (hN : 0 < N) (n : ℕ) : counter N n ≤ N := by
  cases n with
  | zero => exact Nat.zero_le N
  | succ n => exact Nat.mod_lt n hN

/-- **The counter goes round.** -/
theorem next_counter {N : ℕ} (hN : 0 < N) (n : ℕ) : next N (counter N n) = counter N (n + 1) := by
  cases n with
  | zero => simp [next, counter]
  | succ n =>
    have hn := Nat.mod_lt n hN
    rw [next, counter, counter, ← Nat.mod_add_mod n N 1]
    split_ifs with hlast
    · have htop : n % N + 1 = N := by omega
      rw [htop, Nat.mod_self]
    · rw [Nat.mod_eq_of_lt (show n % N + 1 < N by omega)]

/-- **The numbers repeat behind `N` of them at the earliest.** -/
theorem freshWithin_numbers (N n : ℕ) : FreshWithin N (numbers N n) := by
  apply freshWithin_of_apart
  intro i j hij hnear hj heq
  rw [numbers, List.length_map, List.length_range] at hj
  have hget : ∀ k < n, (numbers N n)[k]? = some (k % N + 1) := by
    intro k hk
    simp [numbers, hk]
  rw [hget i (hij.trans hj), hget j hj, Option.some.injEq, Nat.add_right_cancel_iff] at heq
  have hdvd : N ∣ j - i := (Nat.modEq_iff_dvd' hij.le).1 heq
  have hle := Nat.le_of_dvd (by omega) hdvd
  omega

end Rollover
