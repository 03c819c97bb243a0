import Mathlib

/-!
# C strings in memory

A memory is a function from addresses to cells; a C string is a run of non-zero
cells with a zero cell behind it. Writes outside a run leave it alone, so a loop
that writes behind its read position keeps what it has not read yet.
-/

namespace CMem

variable {α : Type*}

/-- `m` holds the cells `s` from address `i` on. -/
def At (m : ℤ → α) : ℤ → List α → Prop
  | _, [] => True
  | i, c :: s => m i = c ∧ At m (i + 1) s

instance decidableAt [DecidableEq α] (m : ℤ → α) : ∀ (i : ℤ) (s : List α), Decidable (At m i s)
  | _, [] => isTrue trivial
  | i, c :: s =>
    have := decidableAt m (i + 1) s
    inferInstanceAs (Decidable (m i = c ∧ At m (i + 1) s))

/-- `m` holds the C string `s` at address `i`. -/
def StrAt [Zero α] (m : ℤ → α) (i : ℤ) (s : List α) : Prop := At m i (s ++ [0]) ∧ 0 ∉ s

/-- Store the cells `s` from address `i` on (`memcpy`). -/
def store (m : ℤ → α) : ℤ → List α → ℤ → α
  | _, [] => m
  | i, c :: s => store (Function.update m i c) (i + 1) s

/-- The C string at address `i`, at most `n` cells of it. -/
def readStr [Zero α] [DecidableEq α] (m : ℤ → α) : ℕ → ℤ → List α
  | 0, _ => []
  | n + 1, i => if m i = 0 then [] else m i :: readStr m n (i + 1)

/-- The cells of a program text. -/
def text (s : String) : List UInt8 := s.toList.map fun c => UInt8.ofNat c.toNat

/-- What `snprintf` leaves of the text `s` in a buffer of `n` cells. -/
def snprintf [Zero α] (n : ℕ) (s : List α) : List α := s.take (n - 1) ++ [0]

theorem at_append (m : ℤ → α) (s t : List α) : ∀ i : ℤ,
    At m i (s ++ t) ↔ At m i s ∧ At m (i + s.length) t := by
  induction s with
  | nil => intro i; simp [At]
  | cons c s ih =>
    intro i
    simp only [List.cons_append, At, ih, List.length_cons, Nat.cast_add, Nat.cast_one, and_assoc]
    rw [show i + 1 + (s.length : ℤ) = i + (s.length + 1) by omega]

/-- A cell of a run. -/
theorem At.getElem {m : ℤ → α} {s : List α} : ∀ {i : ℤ}, At m i s → ∀ (k : ℕ) (hk : k < s.length), m (i + k) = s[k] := by
  induction s with
  | nil => intro i _ k hk; simp at hk
  | cons c s ih =>
    intro i h k hk
    cases k with
    | zero => simpa using h.1
    | succ k =>
      have hnext := ih h.2 k (by simpa using hk)
      rw [List.getElem_cons_succ, ← hnext]
      congr 1
      push_cast
      ring

theorem at_update {m : ℤ → α} {s : List α} {j : ℤ} {v : α} : ∀ {i : ℤ},
    j < i ∨ i + s.length ≤ j → At m i s → At (Function.update m j v) i s := by
  induction s with
  | nil => intro i _ _; trivial
  | cons c s ih =>
    intro i hj h
    simp only [List.length_cons, Nat.cast_add, Nat.cast_one] at hj
    refine ⟨?_, ih (by omega) h.2⟩
    rw [Function.update_of_ne (by omega)]
    exact h.1

theorem at_snoc_update {m : ℤ → α} {s : List α} {i : ℤ} (h : At m i s) (v : α) :
    At (Function.update m (i + s.length) v) i (s ++ [v]) := by
  rw [at_append]
  exact ⟨at_update (Or.inr le_rfl) h, by simp [At]⟩

/-- A store leaves the cells outside of its range alone. -/
theorem store_outside (s : List α) : ∀ (m : ℤ → α) (i : ℤ) {j : ℤ}, j < i ∨ i + s.length ≤ j → store m i s j = m j := by
  induction s with
  | nil => intro m i j _; rfl
  | cons c s ih =>
    intro m i j hj
    simp only [List.length_cons, Nat.cast_add, Nat.cast_one] at hj
    rw [store, ih _ _ (by omega), Function.update_of_ne (by omega)]

theorem at_store (s : List α) : ∀ (m : ℤ → α) (i : ℤ), At (store m i s) i s := by
  induction s with
  | nil => intro m i; trivial
  | cons c s ih =>
    intro m i
    refine ⟨?_, ih _ _⟩
    -- later cells do not touch the first one
    rw [store, store_outside s _ _ (by omega), Function.update_self]

theorem store_append (s t : List α) : ∀ (m : ℤ → α) (i : ℤ),
    store m i (s ++ t) = store (store m i s) (i + s.length) t := by
  induction s with
  | nil => intro m i; simp [store]
  | cons c s ih =>
    intro m i
    rw [List.cons_append, store, store, ih, List.length_cons]
    congr 1
    push_cast
    ring

/-- A store replaces what was stored in its range. -/
theorem store_store {s t : List α} (h : s.length ≤ t.length) (m : ℤ → α) (i : ℤ) : store (store m i s) i t = store m i t := by
  funext j
  by_cases hj : j < i ∨ i + t.length ≤ j
  · rw [store_outside t _ _ hj, store_outside t _ _ hj, store_outside s _ _ (by omega)]
  · obtain ⟨k, rfl⟩ : ∃ k : ℕ, j = i + k := ⟨(j - i).toNat, by omega⟩
    have hk : k < t.length := by omega
    rw [(at_store t _ i).getElem k hk, (at_store t _ i).getElem k hk]

theorem At.store {m : ℤ → α} {s : List α} (t : List α) {j : ℤ} : ∀ {i : ℤ}, At m i s →
    i + s.length ≤ j ∨ j + t.length ≤ i → At (store m j t) i s := by
  induction s with
  | nil => intro i _ _; trivial
  | cons c s ih =>
    intro i h hj
    simp only [List.length_cons, Nat.cast_add, Nat.cast_one] at hj
    refine ⟨?_, ih h.2 (by omega)⟩
    rw [store_outside t _ _ (by omega)]
    exact h.1

/-- A run stays where the cells are the same. -/
theorem At.congr {m m' : ℤ → α} {s : List α} : ∀ {i : ℤ}, At m i s → (∀ j, i ≤ j → j < i + s.length → m' j = m j) → At m' i s := by
  induction s with
  | nil => intro i _ _; trivial
  | cons c s ih =>
    intro i h hm
    simp only [List.length_cons, Nat.cast_add, Nat.cast_one] at hm
    refine ⟨(hm i le_rfl (by omega)).trans h.1, ih h.2 ?_⟩
    intro j h1 h2
    exact hm j (by omega) (by omega)

/-- Cells that both memories hold are the same. -/
theorem At.agree {m m' : ℤ → α} {s : List α} {i j : ℤ} (h : At m i s) (h' : At m' i s) (h1 : i ≤ j) (h2 : j < i + s.length) :
    m j = m' j := by
  obtain ⟨k, rfl⟩ : ∃ k : ℕ, j = i + k := ⟨(j - i).toNat, by omega⟩
  have hk : k < s.length := by omega
  rw [h.getElem k hk, h'.getElem k hk]

/-- A store over the first cells of a run. -/
theorem At.store_front {m : ℤ → α} {s : List α} {i : ℤ} (h : At m i s) {t : List α} (ht : t.length ≤ s.length) :
    At (CMem.store m i t) i (t ++ s.drop t.length) := by
  refine (at_append _ _ _ _).2 ⟨at_store _ _ _, ?_⟩
  rw [← List.take_append_drop t.length s, at_append, List.length_take, Nat.min_eq_left ht] at h
  exact h.2.store t (Or.inr le_rfl)

/-- A store, seen from another address. -/
theorem store_shift (s : List α) : ∀ (m : ℤ → α) (t k : ℤ),
    (fun i => store (fun j => m (t + j)) k s (i - t)) = store m (t + k) s := by
  induction s with
  | nil =>
    intro m t k
    funext i
    simp [store]
  | cons c s ih =>
    intro m t k
    have hupdate : Function.update (fun j => m (t + j)) k c = fun j => Function.update m (t + k) c (t + j) := by
      funext j
      by_cases hj : j = k
      · subst hj
        simp
      · rw [Function.update_of_ne hj, Function.update_of_ne (by omega)]
    rw [store, store, hupdate, ih, add_assoc]

section Zero

variable [Zero α] {m : ℤ → α} {i : ℤ}

theorem StrAt.nil (h : StrAt m i []) : m i = 0 := h.1.1

theorem strAt_cons {c : α} {s : List α} : StrAt m i (c :: s) ↔ m i = c ∧ c ≠ 0 ∧ StrAt m (i + 1) s := by
  unfold StrAt
  simp only [List.cons_append, At, List.mem_cons, not_or]
  constructor
  · rintro ⟨⟨h1, h2⟩, h3, h4⟩; exact ⟨h1, fun h => h3 h.symm, h2, h4⟩
  · rintro ⟨h1, h2, h3, h4⟩; exact ⟨⟨h1, h3⟩, fun h => h2 h.symm, h4⟩

theorem StrAt.update_below {s : List α} (h : StrAt m i s) {j : ℤ} (hj : j < i) (v : α) :
    StrAt (Function.update m j v) i s :=
  ⟨at_update (Or.inl hj) h.1, h.2⟩

theorem strAt_of_at {s : List α} (h : At m i s) (h0 : 0 ∉ s) :
    StrAt (Function.update m (i + s.length) 0) i s :=
  ⟨at_snoc_update h 0, h0⟩

theorem readStr_eq [DecidableEq α] {s : List α} : ∀ {n : ℕ} {i : ℤ}, StrAt m i s → s.length ≤ n →
    readStr m n i = s := by
  induction s with
  | nil =>
    intro n i h _
    cases n with
    | zero => rfl
    | succ n => rw [readStr, if_pos h.nil]
  | cons c s ih =>
    intro n i h hn
    cases n with
    | zero => simp at hn
    | succ n =>
      obtain ⟨h1, h2, h3⟩ := strAt_cons.1 h
      rw [readStr, if_neg (h1 ▸ h2), h1, ih h3 (by simpa using hn)]

/-- A string depends on the cells from its address on. -/
theorem readStr_congr [DecidableEq α] {m' : ℤ → α} : ∀ {n : ℕ} {i : ℤ}, (∀ j, i ≤ j → m j = m' j) →
    readStr m n i = readStr m' n i := by
  intro n
  induction n with
  | zero => intro i _; rfl
  | succ n ih =>
    intro i h
    rw [readStr, readStr, h i le_rfl, ih fun j hj => h j (by omega)]

/-- `strcpy` leaves its source at the target. -/
theorem strAt_store {s : List α} (h0 : 0 ∉ s) (m : ℤ → α) (i : ℤ) : StrAt (store m i (s ++ [0])) i s :=
  ⟨at_store _ _ _, h0⟩

/-- A string stays where nothing is stored over it. -/
theorem StrAt.store {s : List α} (h : StrAt m i s) (t : List α) {j : ℤ}
    (hj : i + s.length + 1 ≤ j ∨ j + t.length ≤ i) : StrAt (store m j t) i s := by
  refine ⟨h.1.store t ?_, h.2⟩
  rw [List.length_append, List.length_singleton]
  push_cast
  omega

/-- **`memcmp` over the length of a string** finds the strings that begin with it. -/
theorem at_iff_begins {t : List α} : ∀ {s : List α} {i : ℤ}, StrAt m i s → 0 ∉ t → (At m i t ↔ t <+: s) := by
  induction t with
  | nil => intro s i _ _; simp [At]
  | cons c t ih =>
    intro s i h h0
    obtain ⟨hc, ht⟩ := not_or.1 (List.mem_cons.not.1 h0)
    cases s with
    | nil =>
      rw [At, h.nil]
      simp [hc]
    | cons d s =>
      obtain ⟨hd, -, hs⟩ := strAt_cons.1 h
      rw [At, hd, ih hs ht, List.cons_prefix_cons, eq_comm]

/-- A C string is what stands in front of the first zero cell. -/
theorem StrAt.unique {t : List α} : ∀ {s : List α} {i : ℤ}, StrAt m i s → StrAt m i t → s = t := by
  induction t with
  | nil =>
    intro s i hs ht
    cases s with
    | nil => rfl
    | cons c s => exact absurd ((strAt_cons.1 hs).1.symm.trans ht.nil) (strAt_cons.1 hs).2.1
  | cons d t ih =>
    intro s i hs ht
    obtain ⟨hd, hd0, ht⟩ := strAt_cons.1 ht
    cases s with
    | nil => exact absurd (hd.symm.trans hs.nil) hd0
    | cons c s =>
      obtain ⟨hc, -, hs⟩ := strAt_cons.1 hs
      rw [ih hs ht, hc.symm.trans hd]

/-- A text that fits its buffer is stored whole, with its terminator. -/
theorem strAt_store_snprintf {s : List α} (h0 : 0 ∉ s) {n : ℕ} (hn : s.length < n) (m : ℤ → α) (i : ℤ) :
    StrAt (store m i (snprintf n s)) i s := by
  have : snprintf n s = s ++ [0] := by rw [snprintf, List.take_of_length_le (by omega)]
  rw [this]
  exact strAt_store h0 m i

/-- An array of `n` cells with the string `s`, and zeros behind it. -/
def padded (n : ℕ) (s : List α) : List α := s ++ List.replicate (n - s.length) 0

theorem padded_length {n : ℕ} {s : List α} (h : s.length ≤ n) : (padded n s).length = n := by
  rw [padded, List.length_append, List.length_replicate]
  omega

/-- A string that is copied to a cleared array. -/
theorem At.store_padded {n : ℕ} {s : List α} (h : At m i (padded n [])) (hs : s.length ≤ n) :
    At (CMem.store m i s) i (padded n s) := by
  have hz : padded n ([] : List α) = List.replicate n 0 := rfl
  have hfront := h.store_front (t := s) (by rw [padded_length (by simp)]; exact hs)
  rwa [hz, List.drop_replicate] at hfront

/-- A string that is shorter than its array has its terminator there. -/
theorem strAt_of_padded {n : ℕ} {s : List α} (h : At m i (padded n s)) (h0 : 0 ∉ s) (hs : s.length < n) : StrAt m i s := by
  refine ⟨?_, h0⟩
  obtain ⟨k, hk⟩ : ∃ k, n - s.length = k + 1 := ⟨n - s.length - 1, by omega⟩
  rw [padded, hk, List.replicate_succ] at h
  rw [at_append] at h ⊢
  exact ⟨h.1, h.2.1, trivial⟩

end Zero

end CMem
