import Mathlib

/-!
# Messages that end with a dot

A message is sent as lines that end with `cr lf`, and a line of a single `dot` ends it. A receiver takes one dot off every other
line that begins with a dot; a sender that does not put it there loses it, or ends the message early.

* `segments`: what stands between the line ends of a text (`segments_append`), and back (`join_segments`).
* `receive`: the receiver.
* `received_iff`: the texts that a receiver gets as they were sent, by a sender that does not stuff.
* `noDot_prefix`, `noDot_snoc`: texts within a line.
-/

namespace DotStuff

variable {α : Type*} [DecidableEq α] (cr lf dot : α)

/-- What stands between the line ends. -/
def segments : List α → List (List α)
  | [] => [[]]
  | [c] => [[c]]
  | c :: d :: t => if c = cr ∧ d = lf then [] :: segments t else (segments (d :: t)).modifyHead (c :: ·)

/-- The segments as lines, each with its end. -/
def join (ls : List (List α)) : List α := ls.flatMap (· ++ [cr, lf])

/-- The line begins with a dot. -/
def Dotted (l : List α) : Prop := l.head? = some dot

/-- A leading dot is taken off. -/
def unstuff (l : List α) : List α := if l.head? = some dot then l.tail else l

/-- **The receiver**: the lines of the message, and the segments behind its end. The last segment is not a line, as nothing ends
it yet. -/
def receive : List (List α) → Option (List (List α) × List (List α))
  | [] => none
  | l :: ls =>
    if ls = [] then none
    else if l = [dot] then some ([], ls)
    else (receive ls).map fun r => (unstuff dot l :: r.1, r.2)

/-- No line of the text but the first one begins with a dot. -/
def NoDot (s : List α) : Prop := ∀ l ∈ (segments cr lf s).tail, ¬ Dotted dot l

section Segments

variable {cr lf dot} {s t : List α} {c : α}

variable (cr lf) in
theorem segments_ne_nil (s : List α) : segments cr lf s ≠ [] := by
  fun_induction segments cr lf s with
  | case1 => simp
  | case2 c => simp
  | case3 => simp
  | case4 c d t hno ih => simpa using ih

/-- The segments with their ends are the text with an end. -/
theorem join_segments (s : List α) : join cr lf (segments cr lf s) = s ++ [cr, lf] := by
  fun_induction segments cr lf s with
  | case1 => rfl
  | case2 c => rfl
  | case3 c d t hend ih =>
    obtain ⟨rfl, rfl⟩ := hend
    rw [join, List.flatMap_cons]
    simp only [List.nil_append, List.cons_append]
    rw [← ih]
    rfl
  | case4 c d t hno ih =>
    obtain ⟨x, xs, hx⟩ := List.exists_cons_of_ne_nil (segments_ne_nil cr lf (d :: t))
    rw [hx] at ih ⊢
    simp only [join, List.modifyHead_cons, List.flatMap_cons, List.cons_append] at ih ⊢
    rw [ih]

/-- **A line end separates** what stands in front of it from what stands behind. -/
theorem segments_append (hne : cr ≠ lf) (s t : List α) :
    segments cr lf (s ++ cr :: lf :: t) = segments cr lf s ++ segments cr lf t := by
  fun_induction segments cr lf s with
  | case1 => simp [segments]
  | case2 c => simp [segments, hne]
  | case3 c d s hend ih =>
    obtain ⟨rfl, rfl⟩ := hend
    simp only [List.cons_append, segments, and_self, if_true, ih]
  | case4 c d s hno ih =>
    obtain ⟨x, xs, hx⟩ := List.exists_cons_of_ne_nil (segments_ne_nil cr lf (d :: s))
    rw [List.cons_append] at ih
    simp only [List.cons_append, segments, if_neg hno, ih, hx, List.modifyHead_cons]

/-- A text behind the beginning of a line. -/
theorem segments_cons (hc : c ≠ cr) (s : List α) : segments cr lf (c :: s) = (segments cr lf s).modifyHead (c :: ·) := by
  cases s with
  | nil => rfl
  | cons d s => rw [segments, if_neg fun h => hc h.1]

variable (cr) in
/-- One more element in the last line. -/
theorem segments_snoc (hc : c ≠ lf) (s : List α) :
    ∃ front last, segments cr lf s = front ++ [last] ∧ segments cr lf (s ++ [c]) = front ++ [last ++ [c]] := by
  fun_induction segments cr lf s with
  | case1 => exact ⟨[], [], rfl, rfl⟩
  | case2 d =>
    refine ⟨[], [d], rfl, ?_⟩
    simp [segments, hc]
  | case3 c' d s hend ih =>
    obtain ⟨front, last, h1, h2⟩ := ih
    refine ⟨[] :: front, last, by rw [h1]; rfl, ?_⟩
    simp only [List.cons_append, segments, if_pos hend, h2]
  | case4 c' d s hno ih =>
    obtain ⟨front, last, h1, h2⟩ := ih
    rw [List.cons_append] at h2
    cases front with
    | nil =>
      refine ⟨[], c' :: last, by rw [h1]; rfl, ?_⟩
      simp only [List.cons_append, segments, if_neg hno, h2]
      rfl
    | cons x front =>
      refine ⟨(c' :: x) :: front, last, by rw [h1]; rfl, ?_⟩
      simp only [List.cons_append, segments, if_neg hno, h2]
      rfl

omit [DecidableEq α] in
/-- A line that begins with something else than a dot begins as well with more behind it. -/
theorem dotted_append {l t : List α} (hl : l ≠ []) : Dotted dot (l ++ t) ↔ Dotted dot l := by
  rw [Dotted, List.head?_append_of_ne_nil _ hl, Dotted]

/-- **A text behind a prefix in the first line.** -/
theorem noDot_prefix {p : List α} (hp : cr ∉ p) (s : List α) : NoDot cr lf dot (p ++ s) ↔ NoDot cr lf dot s := by
  induction p with
  | nil => rfl
  | cons c p ih =>
    obtain ⟨hc, hp⟩ := not_or.1 (List.mem_cons.not.1 hp)
    rw [← ih hp, List.cons_append, NoDot, segments_cons (Ne.symm hc)]
    obtain ⟨x, xs, hx⟩ := List.exists_cons_of_ne_nil (segments_ne_nil cr lf (p ++ s))
    rw [NoDot, hx]
    rfl

/-- **A text in front of one more element**, which is no dot. -/
theorem noDot_snoc (hc : c ≠ lf) (hdot : c ≠ dot) (s : List α) : NoDot cr lf dot (s ++ [c]) ↔ NoDot cr lf dot s := by
  obtain ⟨front, last, h1, h2⟩ := segments_snoc cr hc s
  have hlast : Dotted dot (last ++ [c]) ↔ Dotted dot last := by
    cases last with
    | nil => simp [Dotted, hdot]
    | cons d last => exact dotted_append (by simp)
  rw [NoDot, NoDot, h1, h2]
  cases front with
  | nil => simp
  | cons x front => simp [hlast, or_imp, forall_and]

/-- A text that begins a line with something else than a dot. -/
theorem forall_segments_iff (h : s.head? ≠ some dot) (hcr : s.head? ≠ some cr) :
    (∀ l ∈ segments cr lf s, ¬ Dotted dot l) ↔ NoDot cr lf dot s := by
  cases s with
  | nil => simp [segments, NoDot, Dotted]
  | cons c s =>
    have hc : c ≠ cr := fun he => hcr (by rw [he]; rfl)
    obtain ⟨x, xs, hx⟩ := List.exists_cons_of_ne_nil (segments_ne_nil cr lf s)
    rw [NoDot, segments_cons hc, hx, List.modifyHead_cons, List.tail_cons, List.forall_mem_cons]
    refine ⟨fun hall => hall.2, fun hall => ⟨fun hd => ?_, hall⟩⟩
    exact h hd

end Segments

section Receive

variable {cr lf dot} {ls : List (List α)}

/-- Lines without leading dots come through. -/
theorem receive_plain (h : ∀ l ∈ ls, ¬ Dotted dot l) : receive dot (ls ++ [[dot], []]) = some (ls, [[]]) := by
  induction ls with
  | nil => simp [receive]
  | cons l ls ih =>
    obtain ⟨hl, hrest⟩ := List.forall_mem_cons.1 h
    have hne : l ≠ [dot] := fun he => hl (by rw [he]; rfl)
    rw [List.cons_append, receive, if_neg (by simp), if_neg hne, ih hrest, Option.map_some, unstuff,
      if_neg (show ¬ l.head? = some dot from hl)]

omit [DecidableEq α] in
theorem join_cons (l : List α) (ls : List (List α)) : (join cr lf (l :: ls)).length = l.length + 2 + (join cr lf ls).length := by
  rw [join, List.flatMap_cons, List.length_append, List.length_append]
  rfl

variable (cr lf) in
/-- **What comes through is not longer**, and shorter when a line had a leading dot. -/
theorem receive_length : ∀ {ls msg : List (List α)}, receive dot (ls ++ [[dot], []]) = some (msg, [[]]) →
    (join cr lf msg).length ≤ (join cr lf ls).length ∧
      ((join cr lf msg).length = (join cr lf ls).length → ∀ l ∈ ls, ¬ Dotted dot l) := by
  intro ls
  induction ls with
  | nil =>
    intro msg h
    simp only [List.nil_append, receive, List.cons_ne_nil, if_false, if_true, Option.some.injEq, Prod.mk.injEq] at h
    rw [← h.1]
    exact ⟨le_rfl, fun _ l hl => absurd hl List.not_mem_nil⟩
  | cons l ls ih =>
    intro msg h
    rw [List.cons_append, receive, if_neg (by simp)] at h
    split_ifs at h with hl
    · -- the message has ended, and more than an empty segment is behind it
      have hrest := (Prod.mk.inj (Option.some.inj h)).2
      have hlen := congrArg List.length hrest
      rw [List.length_append, List.length_cons, List.length_cons, List.length_nil] at hlen
      simp at hlen
    · obtain ⟨⟨msg', rest⟩, hr, he⟩ := Option.map_eq_some_iff.1 h
      obtain ⟨rfl, rfl⟩ := Prod.mk.inj he
      obtain ⟨hle, heq⟩ := ih hr
      dsimp only
      rw [join_cons, join_cons]
      by_cases hd : l.head? = some dot
      · have hpos : 0 < l.length := by
          cases l with
          | nil => simp at hd
          | cons c l => simp
        rw [unstuff, if_pos hd, List.length_tail]
        exact ⟨by omega, fun hlen => absurd hlen (by omega)⟩
      · rw [unstuff, if_neg hd]
        refine ⟨by omega, fun hlen => List.forall_mem_cons.2 ⟨hd, heq (by omega)⟩⟩

/-- **A text comes through unchanged**, with nothing behind it, exactly when no line of it begins with a dot. -/
theorem received_iff (hne : cr ≠ lf) (hdot : dot ≠ cr) (s : List α) :
    (∃ msg, receive dot (segments cr lf (s ++ [cr, lf, dot, cr, lf])) = some (msg, [[]]) ∧ join cr lf msg = s ++ [cr, lf]) ↔
      ∀ l ∈ segments cr lf s, ¬ Dotted dot l := by
  have hend : segments cr lf [dot, cr, lf] = [[dot], []] := by simp [segments, hdot]
  have hsegs : segments cr lf (s ++ [cr, lf, dot, cr, lf]) = segments cr lf s ++ [[dot], []] := by
    rw [segments_append hne, hend]
  rw [hsegs, ← join_segments s]
  constructor
  · rintro ⟨msg, hrun, hmsg⟩
    exact (receive_length cr lf hrun).2 (congrArg List.length hmsg)
  · intro h
    exact ⟨_, receive_plain h, rfl⟩

end Receive

end DotStuff
