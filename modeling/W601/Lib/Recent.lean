import Mathlib

/-!
# Lists of what was used last

Each key stands in the list once, with what it was used with last, the latest use in front. A list of a bounded length
drops what is behind the bound.

* `recent`: the list for some uses. `mem_recent`: what is in it.
* `foldr_put`: a list that is bounded after each use is the start of the unbounded one.
-/

namespace Recent

variable {α κ : Type*} [DecidableEq κ] (key : α → κ)

/-- A use. -/
def push (x : α) (l : List α) : List α := x :: l.filter (key · ≠ key x)

/-- The latest uses of all keys; the uses are given with the latest one in front. -/
def recent : List α → List α
  | [] => []
  | x :: older => push key x (recent older)

/-- A use of a bounded list. -/
def put (bound : ℕ) (x : α) (l : List α) : List α := (push key x l).take bound

variable {key}

theorem filter_of_notMem {k : κ} {l : List α} (h : k ∉ l.map key) : l.filter (key · ≠ k) = l := by
  refine List.filter_eq_self.2 fun y hy => decide_eq_true fun heq => h ?_
  exact heq ▸ List.mem_map_of_mem hy

theorem push_of_notMem {x : α} {l : List α} (h : key x ∉ l.map key) : push key x l = x :: l := by
  rw [push, filter_of_notMem h]

theorem push_of_mem {x y : α} {front back : List α} (hkey : key y = key x)
    (hnodup : ((front ++ y :: back).map key).Nodup) : push key x (front ++ y :: back) = x :: (front ++ back) := by
  rw [List.map_append, List.map_cons] at hnodup
  have hmem := (List.nodup_middle.1 hnodup).notMem
  rw [← List.map_append, hkey] at hmem
  have hrest := push_of_notMem hmem
  rw [push, List.filter_append, List.filter_cons_of_neg (by simp [hkey]), ← List.filter_append]
  exact hrest

theorem nodup_push {x : α} {l : List α} (h : (l.map key).Nodup) : ((push key x l).map key).Nodup := by
  rw [push, List.map_cons, List.nodup_cons]
  constructor
  · intro hmem
    obtain ⟨y, hy, hkey⟩ := List.mem_map.1 hmem
    exact of_decide_eq_true (List.mem_filter.1 hy).2 hkey
  · exact (List.filter_sublist.map key).nodup h

theorem nodup_recent : ∀ l : List α, ((recent key l).map key).Nodup
  | [] => List.nodup_nil
  | _ :: older => nodup_push (nodup_recent older)

/-- **What stands in the list** has not been used again. -/
theorem mem_recent {x : α} : ∀ {l : List α},
    x ∈ recent key l ↔ ∃ newer older, l = newer ++ x :: older ∧ ∀ y ∈ newer, key y ≠ key x := by
  intro l
  induction l with
  | nil => simp [recent]
  | cons z l ih =>
    rw [recent, push, List.mem_cons, List.mem_filter, ih, decide_eq_true_eq]
    constructor
    · rintro (rfl | ⟨⟨newer, older, rfl, hnewer⟩, hne⟩)
      · exact ⟨[], l, rfl, fun _ h => absurd h List.not_mem_nil⟩
      · exact ⟨z :: newer, older, rfl, List.forall_mem_cons.2 ⟨Ne.symm hne, hnewer⟩⟩
    · rintro ⟨newer, older, heq, hnewer⟩
      cases newer with
      | nil =>
        obtain ⟨rfl, rfl⟩ := List.cons.inj heq
        exact .inl rfl
      | cons y newer =>
        obtain ⟨rfl, rfl⟩ := List.cons.inj heq
        obtain ⟨hne, hrest⟩ := List.forall_mem_cons.1 hnewer
        exact .inr ⟨⟨newer, older, rfl, hrest⟩, hne.symm⟩

theorem length_put_le (bound : ℕ) (x : α) (l : List α) : (put key bound x l).length ≤ bound := List.length_take_le _ _

theorem nodup_put (bound : ℕ) {x : α} {l : List α} (h : (l.map key).Nodup) : ((put key bound x l).map key).Nodup :=
  ((List.take_sublist _ _).map key).nodup (nodup_push h)

/-- Without one key the start of a list is a start still. -/
theorem take_filter {k : κ} : ∀ {l : List α} {n : ℕ}, (l.map key).Nodup →
    ((l.take (n + 1)).filter (key · ≠ k)).take n = (l.filter (key · ≠ k)).take n := by
  intro l
  induction l with
  | nil => intro n _; rfl
  | cons y l ih =>
    intro n h
    rw [List.map_cons, List.nodup_cons] at h
    rw [List.take_succ_cons]
    by_cases hy : key y = k
    · have hrest : k ∉ l.map key := hy ▸ h.1
      have hstart : k ∉ (l.take n).map key := fun hmem => hrest (((List.take_sublist n l).map key).subset hmem)
      rw [List.filter_cons_of_neg (by simp [hy]), List.filter_cons_of_neg (by simp [hy]), filter_of_notMem hrest,
        filter_of_notMem hstart, List.take_take, Nat.min_self]
    · rw [List.filter_cons_of_pos (by simp [hy]), List.filter_cons_of_pos (by simp [hy])]
      cases n with
      | zero => rfl
      | succ n => rw [List.take_succ_cons, List.take_succ_cons, ih h.2]

/-- **What is behind the bound is never missed**: a use of the start of a list gives the start of what a use of the list
gives. -/
theorem put_take {bound : ℕ} {x : α} {l : List α} (h : (l.map key).Nodup) :
    put key bound x (l.take bound) = put key bound x l := by
  cases bound with
  | zero => rfl
  | succ n => rw [put, put, push, push, List.take_succ_cons, List.take_succ_cons, take_filter h]

/-- **A bounded list** is the start of the unbounded one, in every run. -/
theorem foldr_put (bound : ℕ) (l : List α) : l.foldr (put key bound) [] = (recent key l).take bound := by
  induction l with
  | nil => exact (List.take_nil).symm
  | cons x l ih => rw [List.foldr_cons, ih, put_take (nodup_recent l), recent, put]

/-- Lists of what stands for the uses. -/
theorem map_put {β : Type*} {key' : β → κ} {g : α → β} (h : ∀ x, key' (g x) = key x) (bound : ℕ) (x : α) (l : List α) :
    (put key bound x l).map g = put key' bound (g x) (l.map g) := by
  have hfilter : (l.filter (key · ≠ key x)).map g = (l.map g).filter (key' · ≠ key' (g x)) := by
    rw [List.filter_map]
    simp only [Function.comp_def, h]
  rw [put, put, push, push, List.map_take, List.map_cons, hfilter]

end Recent
