import Mathlib

/-!
# A heap, and linked lists in it

A heap is a partial map from addresses to blocks; a new block gets an address that no block has had before, so that a
pointer to a block that was freed can be told.

* `Heap.alloc`, `Heap.put`, `Heap.dealloc`: the operations, the last two only where there is a block.
* `Seg`: a list of elements in memory, each with a link to the next one. Segments that follow each other are one
  (`seg_append`), a change outside of a segment leaves it alone (`Seg.mono`), and a new link in the last element lets
  it end elsewhere (`Seg.relink`).
* `seek`: the loop that follows the links until one has a given value. It finds the last element of a segment (`seek_eq`).
-/

/-- The blocks that are allocated. -/
structure Heap (β : Type*) where
  cells : ℕ → Option β
  bound : ℕ
  /-- The addresses from `bound` on have not been handed out. -/
  fresh : ∀ p, bound ≤ p → cells p = none

namespace Heap

variable {β : Type*} {h : Heap β} {p q : ℕ} {b b' : β}

def empty : Heap β := ⟨fun _ => none, 0, fun _ _ => rfl⟩

theorem lt_bound (hp : h.cells p = some b) : p < h.bound := by
  by_contra hge
  rw [h.fresh p (Nat.le_of_not_lt hge)] at hp
  exact Option.some_ne_none b hp.symm

/-- A new block; its address is `bound`. -/
def alloc (h : Heap β) (b : β) : Heap β where
  cells := Function.update h.cells h.bound (some b)
  bound := h.bound + 1
  fresh p hp := by
    rw [Function.update_of_ne (by omega)]
    exact h.fresh p (by omega)

/-- Another content for a block. -/
def set (h : Heap β) (p : ℕ) (b : β) : Heap β where
  cells := Function.update h.cells p ((h.cells p).map fun _ => b)
  bound := h.bound
  fresh q hq := by
    by_cases hpq : q = p
    · subst hpq
      rw [Function.update_self, h.fresh q hq]
      rfl
    · rw [Function.update_of_ne hpq, h.fresh q hq]

def drop (h : Heap β) (p : ℕ) : Heap β where
  cells := Function.update h.cells p none
  bound := h.bound
  fresh q hq := by
    by_cases hpq : q = p
    · rw [hpq, Function.update_self]
    · rw [Function.update_of_ne hpq, h.fresh q hq]

/-- Write a block that is allocated. -/
def put (h : Heap β) (p : ℕ) (b : β) : Option (Heap β) := if (h.cells p).isSome then some (h.set p b) else none

/-- Free a block that is allocated. -/
def dealloc (h : Heap β) (p : ℕ) : Option (Heap β) := if (h.cells p).isSome then some (h.drop p) else none

theorem put_eq (hp : h.cells p = some b') : h.put p b = some (h.set p b) := by
  rw [put, hp]
  rfl

theorem dealloc_eq (hp : h.cells p = some b) : h.dealloc p = some (h.drop p) := by
  rw [dealloc, hp]
  rfl

@[simp] theorem alloc_bound (h : Heap β) (b : β) : (h.alloc b).bound = h.bound + 1 := rfl

@[simp] theorem set_bound (h : Heap β) (p : ℕ) (b : β) : (h.set p b).bound = h.bound := rfl

@[simp] theorem drop_bound (h : Heap β) (p : ℕ) : (h.drop p).bound = h.bound := rfl

@[simp] theorem alloc_new (h : Heap β) (b : β) : (h.alloc b).cells h.bound = some b := Function.update_self ..

theorem alloc_old (b : β) (hp : p ≠ h.bound) : (h.alloc b).cells p = h.cells p := Function.update_of_ne hp ..

theorem set_same (b : β) (hp : h.cells p = some b') : (h.set p b).cells p = some b := by
  simp only [set, Function.update_self, hp]
  rfl

theorem set_other (h : Heap β) (b : β) (hq : q ≠ p) : (h.set p b).cells q = h.cells q := Function.update_of_ne hq ..

theorem drop_other (h : Heap β) (hq : q ≠ p) : (h.drop p).cells q = h.cells q := Function.update_of_ne hq ..

/-- Different addresses of blocks are not more than the addresses that were handed out. -/
theorem length_le_bound {l : List ℕ} (hnodup : l.Nodup) (hl : ∀ p ∈ l, p < h.bound) : l.length ≤ h.bound := by
  have hsub : l ⊆ List.range h.bound := fun p hp => List.mem_range.2 (hl p hp)
  have hle := (List.subperm_of_subset hnodup hsub).length_le
  rwa [List.length_range] at hle

end Heap

/-! ## Segments of linked lists -/

section Seg

variable {α : Type*} {addr : α → ℕ} {P P' : α → Option ℕ → Prop} {p q : Option ℕ} {l l' : List α} {x : α}

/-- The elements `l` stand in memory from `p` on, and the last of them is linked to `q`. `addr` is the address of an
element, and `P x n` says that `x` is there with the link `n`. -/
def Seg (addr : α → ℕ) (P : α → Option ℕ → Prop) : Option ℕ → List α → Option ℕ → Prop
  | p, [], q => p = q
  | p, x :: l, q => p = some (addr x) ∧ ∃ n, P x n ∧ Seg addr P n l q

/-- **Segments that follow each other** are one. -/
theorem seg_append : Seg addr P p (l ++ l') q ↔ ∃ n, Seg addr P p l n ∧ Seg addr P n l' q := by
  induction l generalizing p with
  | nil => simp [Seg]
  | cons x l ih =>
    simp only [List.cons_append, Seg, ih]
    constructor
    · rintro ⟨hp, m, hx, n, h1, h2⟩
      exact ⟨n, ⟨hp, m, hx, h1⟩, h2⟩
    · rintro ⟨n, ⟨hp, m, hx, h1⟩, h2⟩
      exact ⟨hp, m, hx, n, h1, h2⟩

theorem seg_singleton : Seg addr P p [x] q ↔ p = some (addr x) ∧ P x q := by simp [Seg]

/-- **The frame**: what leaves the elements alone leaves the segment alone. -/
theorem Seg.mono (h : Seg addr P p l q) (hP : ∀ x ∈ l, ∀ n, P x n → P' x n) : Seg addr P' p l q := by
  induction l generalizing p with
  | nil => exact h
  | cons x l ih =>
    obtain ⟨hp, n, hx, hrest⟩ := h
    exact ⟨hp, n, hP x List.mem_cons_self n hx, ih hrest fun y hy => hP y (List.mem_cons_of_mem x hy)⟩

/-- An element of a segment is in memory. -/
theorem Seg.mem (h : Seg addr P p l q) (hx : x ∈ l) : ∃ n, P x n := by
  induction l generalizing p with
  | nil => exact absurd hx List.not_mem_nil
  | cons y l ih =>
    obtain ⟨-, n, hy, hrest⟩ := h
    rcases List.mem_cons.1 hx with rfl | hx
    · exact ⟨n, hy⟩
    · exact ih hrest hx

/-- **A new link in the last element.** -/
theorem Seg.relink {q' : Option ℕ} (h : Seg addr P p (l ++ [x]) q) (hl : ∀ y ∈ l, ∀ n, P y n → P' y n) (hx : P' x q') :
    Seg addr P' p (l ++ [x]) q' := by
  obtain ⟨n, h1, h2⟩ := seg_append.1 h
  exact seg_append.2 ⟨n, h1.mono hl, seg_singleton.2 ⟨(seg_singleton.1 h2).1, hx⟩⟩

/-- `while (cur->next != target) cur = cur->next`: where the loop stops. A null pointer is not followed. -/
def seek (link : ℕ → Option (Option ℕ)) (target : Option ℕ) : ℕ → Option ℕ → Option ℕ
  | 0, _ => none
  | _ + 1, none => none
  | n + 1, some p => (link p).bind fun q => if q = target then some p else seek link target n q

/-- The loop follows a null pointer behind the only element. -/
theorem seek_null {link : ℕ → Option (Option ℕ)} {a : ℕ} (ha : link a = some none) (hq : q ≠ none) (n : ℕ) :
    seek link q n (some a) = none := by
  cases n with
  | zero => rfl
  | succ n =>
    rw [seek, ha, Option.bind_some, if_neg hq.symm]
    cases n <;> rfl

/-- **The loop finds the last element** of a segment that the target is not in. -/
theorem seek_eq {link : ℕ → Option (Option ℕ)} (hlink : ∀ x n, P x n → link (addr x) = some n) {n : ℕ}
    (h : Seg addr P p (l ++ [x]) q) (hq : ∀ y ∈ l ++ [x], q ≠ some (addr y)) (hn : l.length < n) :
    seek link q n p = some (addr x) := by
  induction l generalizing p n with
  | nil =>
    obtain ⟨k, rfl⟩ := Nat.exists_eq_succ_of_ne_zero (show n ≠ 0 by omega)
    obtain ⟨rfl, hx⟩ := seg_singleton.1 h
    rw [seek, hlink x q hx, Option.bind_some, if_pos rfl]
  | cons y l ih =>
    obtain ⟨k, rfl⟩ := Nat.exists_eq_succ_of_ne_zero (show n ≠ 0 by omega)
    obtain ⟨rfl, m, hy, hrest⟩ := h
    have hm : m ≠ q := by
      -- the next element is there, and it is not the target
      obtain ⟨z, hz, hzm⟩ : ∃ z ∈ l ++ [x], m = some (addr z) := by
        cases l with
        | nil => exact ⟨x, by simp, hrest.1⟩
        | cons z l => exact ⟨z, by simp, hrest.1⟩
      rw [hzm]
      exact (hq z (List.mem_cons_of_mem y hz)).symm
    rw [seek, hlink y m hy, Option.bind_some, if_neg hm]
    rw [List.length_cons] at hn
    exact ih hrest (fun z hz => hq z (List.mem_cons_of_mem y hz)) (by omega)

end Seg
