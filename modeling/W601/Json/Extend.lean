import W601.Json.CJson

/-!
# Texts that go on behind a value

What the parser makes of an object does not depend on the text behind its closing brace, and another member can stand
before the brace. A value inside an object or an array is followed by white space, a comma or a bracket, and the parser
looks no further.

* `parseNumber_within`, `parseString_local`, `parseValue_local`: what stands behind a value.
* `cJSONParse_append`: text behind an object is ignored.
* `cJSONParse_insert`: an object that is cut off can be closed with one more member.
-/

namespace W601.Json

open CMem

/-! ## White space -/

/-- White space for the parser. -/
def Blank (bl : List UInt8) : Prop := ∀ c ∈ bl, c ≤ 32

theorem skip_blank {bl : List UInt8} (h : Blank bl) (t : List UInt8) : skip (bl ++ t) = skip t := by
  unfold skip
  exact List.dropWhile_append_of_pos fun c hc => by simpa using h c hc

theorem skip_split (t : List UInt8) : ∃ bl, Blank bl ∧ t = bl ++ skip t := by
  refine ⟨t.takeWhile (· ≤ 32), fun c hc => ?_, (List.takeWhile_append_dropWhile ..).symm⟩
  simpa using List.mem_takeWhile_imp hc

theorem skip_skip (t : List UInt8) : skip (skip t) = skip t := List.dropWhile_idempotent _ _

theorem skip_head {t : List UInt8} {c : UInt8} {u : List UInt8} (h : skip t = c :: u) : ¬ c ≤ 32 := by
  intro hc
  have hskip := skip_skip t
  rw [h] at hskip
  have hlen := congrArg List.length hskip
  rw [skip, List.dropWhile_cons_of_pos (by simpa using hc), List.length_cons] at hlen
  have := List.length_dropWhile_le (fun c : UInt8 => decide (c ≤ 32)) u
  omega

/-- What is in front of a text that `skip` leaves. -/
theorem skip_eq {t w r : List UInt8} (h : skip t = w ++ r) (hw : w ≠ []) :
    ∃ bl, t = bl ++ (w ++ r) ∧ ∀ u, skip (bl ++ (w ++ u)) = w ++ u := by
  obtain ⟨bl, hbl, ht⟩ := skip_split t
  rw [h] at ht
  refine ⟨bl, ht, fun u => ?_⟩
  obtain ⟨c, w, rfl⟩ := List.exists_cons_of_ne_nil hw
  rw [skip_blank hbl, List.cons_append, skip_cons (skip_head h)]

theorem expect_some {c : UInt8} {t u : List UInt8} (h : expect c t = some u) : t = c :: u := by
  cases t with
  | nil => exact absurd h (by simp [expect])
  | cons d t =>
    rw [expect] at h
    split_ifs at h with hd
    rw [hd, Option.some.inj h]

/-- The character that is expected, behind white space. -/
theorem expect_skip {c : UInt8} {t u : List UInt8} (h : expect c (skip t) = some u) : ∃ bl, Blank bl ∧ t = bl ++ c :: u := by
  obtain ⟨bl, hbl, ht⟩ := skip_split t
  rw [expect_some h] at ht
  exact ⟨bl, hbl, ht⟩

theorem expect_cons (c d : UInt8) (u : List UInt8) : expect c (d :: u) = if d = c then some u else none := rfl

theorem expect_none {c : UInt8} {w r : List UInt8} (hw : w ≠ []) (h : expect c (w ++ r) = none) (r' : List UInt8) :
    expect c (w ++ r') = none := by
  obtain ⟨d, w, rfl⟩ := List.exists_cons_of_ne_nil hw
  rw [List.cons_append, expect_cons] at h ⊢
  split_ifs at h with hd
  rw [if_neg hd]

/-! ## Strings -/

theorem parseSurrogate_local {uc : ℕ} {t a w r : List UInt8} (h : parseSurrogate uc t = some (a, w ++ 34 :: r)) :
    ∃ x, t = x ++ (w ++ 34 :: r) ∧ ∀ r', parseSurrogate uc (x ++ (w ++ 34 :: r')) = some (a, w ++ 34 :: r') := by
  match t with
  | [] => simp [parseSurrogate] at h
  | b :: t =>
    unfold parseSurrogate at h
    dsimp only at h
    by_cases hb : b ≠ 92 ∨ t.head? ≠ some 117
    · -- no second half: nothing is read
      rw [if_pos hb] at h
      obtain ⟨rfl, ht⟩ := Prod.mk.inj (Option.some.inj h)
      refine ⟨[], ht, fun r' => ?_⟩
      rcases w with _ | ⟨d, _ | ⟨e, w⟩⟩
      · rfl
      · simp only [List.nil_append, List.cons_append, parseSurrogate]
        rw [if_pos (Or.inr (by simp))]
      · obtain ⟨rfl, rfl⟩ := List.cons.inj ht
        simp only [List.nil_append, List.cons_append, parseSurrogate]
        rw [if_pos (by simpa using hb)]
    · rw [if_neg hb] at h
      push Not at hb
      obtain ⟨rfl, ht⟩ := hb
      match t with
      | _ :: a1 :: b1 :: c1 :: d1 :: t =>
        obtain rfl := Option.some.inj ht
        dsimp only at h
        split_ifs at h with huc
        · obtain ⟨rfl, rfl⟩ := Prod.mk.inj (Option.some.inj h)
          refine ⟨[92, 117, a1, b1, c1, d1], rfl, fun r' => ?_⟩
          simp only [List.cons_append, List.nil_append, parseSurrogate]
          rw [if_neg (by simp), if_pos huc]
        · obtain ⟨rfl, rfl⟩ := Prod.mk.inj (Option.some.inj h)
          refine ⟨[92, 117, a1, b1, c1, d1], rfl, fun r' => ?_⟩
          simp only [List.cons_append, List.nil_append, parseSurrogate]
          rw [if_neg (by simp), if_neg huc]
      | [] | [_] | [_, _] | [_, _, _] | [_, _, _, _] => simp at h

theorem parseUnicode_local {t a w r : List UInt8} (h : parseUnicode t = some (a, w ++ 34 :: r)) :
    ∃ x, t = x ++ (w ++ 34 :: r) ∧ ∀ r', parseUnicode (x ++ (w ++ 34 :: r')) = some (a, w ++ 34 :: r') := by
  match t with
  | a1 :: b1 :: c1 :: d1 :: t =>
    simp only [parseUnicode] at h
    split_ifs at h with h1 h2
    · obtain ⟨rfl, rfl⟩ := Prod.mk.inj (Option.some.inj h)
      refine ⟨[a1, b1, c1, d1], rfl, fun r' => ?_⟩
      simp only [List.cons_append, List.nil_append, parseUnicode]
      exact if_pos h1
    · obtain ⟨x, rfl, hx⟩ := parseSurrogate_local h
      refine ⟨a1 :: b1 :: c1 :: d1 :: x, rfl, fun r' => ?_⟩
      simp only [List.cons_append, parseUnicode]
      rw [if_neg h1, if_pos h2, hx]
    · obtain ⟨rfl, rfl⟩ := Prod.mk.inj (Option.some.inj h)
      refine ⟨[a1, b1, c1, d1], rfl, fun r' => ?_⟩
      simp only [List.cons_append, List.nil_append, parseUnicode]
      rw [if_neg h1, if_neg h2]
  | [] | [_] | [_, _] | [_, _, _] => simp [parseUnicode] at h

/-- **An escape** ends before the closing quote. -/
theorem parseEscape_local {t a w r : List UInt8} (h : parseEscape t = some (a, w ++ 34 :: r)) :
    ∃ x, t = x ++ (w ++ 34 :: r) ∧ ∀ r', parseEscape (x ++ (w ++ 34 :: r')) = some (a, w ++ 34 :: r') := by
  match t with
  | [] => simp [parseEscape] at h
  | e :: t =>
    rw [parseEscape] at h
    split_ifs at h with he
    · obtain ⟨x, rfl, hx⟩ := parseUnicode_local h
      refine ⟨e :: x, rfl, fun r' => ?_⟩
      rw [List.cons_append, parseEscape, if_pos he, hx]
    · obtain ⟨rfl, rfl⟩ := Prod.mk.inj (Option.some.inj h)
      refine ⟨[e], rfl, fun r' => ?_⟩
      rw [List.singleton_append, parseEscape, if_neg he]

theorem parseChars_local : ∀ (n : ℕ) (t s r : List UInt8), parseChars n t = some (s, r) → r ≠ [] →
    ∃ w, t = w ++ 34 :: r ∧ ∀ m r', w.length < m → parseChars m (w ++ 34 :: r') = some (s, r') := by
  intro n
  induction n with
  | zero =>
    intro t s r h hr
    cases t with
    | nil => exact absurd (Prod.mk.inj (Option.some.inj h)).2.symm hr
    | cons c t => exact absurd h (by simp [parseChars])
  | succ n ih =>
    intro t s r h hr
    cases t with
    | nil => exact absurd (Prod.mk.inj (Option.some.inj h)).2.symm hr
    | cons c t =>
      rw [parseChars] at h
      split_ifs at h with hq hb
      · -- the closing quote
        obtain ⟨rfl, rfl⟩ := Prod.mk.inj (Option.some.inj h)
        refine ⟨[], by rw [hq]; rfl, fun m r' hm => ?_⟩
        obtain ⟨m, rfl⟩ := Nat.exists_eq_succ_of_ne_zero (show m ≠ 0 by simp at hm; omega)
        rfl
      · -- a character
        obtain ⟨⟨s', r₁⟩, hrest, hsr⟩ := Option.map_eq_some_iff.1 h
        obtain ⟨rfl, rfl⟩ := Prod.mk.inj hsr
        obtain ⟨w, rfl, hw⟩ := ih t s' r₁ hrest hr
        refine ⟨c :: w, rfl, fun m r' hm => ?_⟩
        rw [List.length_cons] at hm
        obtain ⟨m, rfl⟩ := Nat.exists_eq_succ_of_ne_zero (show m ≠ 0 by omega)
        rw [List.cons_append, parseChars, if_neg hq, if_pos hb, hw m r' (by omega)]
        rfl
      · -- an escape
        obtain ⟨⟨a, u⟩, hescape, h⟩ := Option.bind_eq_some_iff.1 h
        obtain ⟨⟨s', r₁⟩, hrest, hsr⟩ := Option.map_eq_some_iff.1 h
        obtain ⟨rfl, rfl⟩ := Prod.mk.inj hsr
        obtain ⟨w, hu, hw⟩ := ih u s' r₁ hrest hr
        rw [hu] at hescape
        obtain ⟨x, rfl, hx⟩ := parseEscape_local hescape
        refine ⟨c :: (x ++ w), by simp, fun m r' hm => ?_⟩
        rw [List.length_cons, List.length_append] at hm
        obtain ⟨m, rfl⟩ := Nat.exists_eq_succ_of_ne_zero (show m ≠ 0 by omega)
        rw [List.cons_append, List.append_assoc, parseChars, if_neg hq, if_neg hb, hx, Option.bind_some,
          hw m r' (by omega)]
        rfl

/-- **A string** ends with its closing quote. -/
theorem parseString_local {t s r : List UInt8} (h : parseString t = some (s, r)) (hr : r ≠ []) :
    ∃ w, t = 34 :: w ++ r ∧ ∀ r', parseString (34 :: w ++ r') = some (s, r') := by
  cases t with
  | nil => exact absurd h (by simp [parseString])
  | cons c t =>
    rw [parseString] at h
    split_ifs at h with hc
    obtain ⟨w, rfl, hw⟩ := parseChars_local _ _ _ _ h hr
    refine ⟨w ++ [34], by simp [hc], fun r' => ?_⟩
    have htext : 34 :: (w ++ [34]) ++ r' = 34 :: (w ++ 34 :: r') := by simp
    rw [htext, parseString, if_pos rfl, hw]
    rw [List.length_append, List.length_cons]
    omega

/-! ## Numbers -/

/-- A character that stands behind a value in an object or an array. -/
def Stop (c : UInt8) : Prop := c ≤ 32 ∨ c = 44 ∨ c = 93 ∨ c = 125

theorem Stop.not_digit {c : UInt8} (h : Stop c) : isDigit c = false := by
  rcases h with h | rfl | rfl | rfl
  · have h48 : ¬ 48 ≤ c := fun h' => absurd (UInt8.le_trans h' h) (by decide)
    simp [isDigit, h48]
  · rfl
  · rfl
  · rfl

/-- No character above white space that is not a comma or a closing bracket. -/
theorem Stop.ne {c : UInt8} (h : Stop c) (d : UInt8) (hd : ¬ d ≤ 32) (h1 : d ≠ 44) (h2 : d ≠ 93) (h3 : d ≠ 125) :
    c ≠ d := by
  rintro rfl
  rcases h with h | h | h | h
  · exact hd h
  · exact h1 h
  · exact h2 h
  · exact h3 h

/-- What is read and what is left make up the text. -/
def Splits (f : List UInt8 → List UInt8 × List UInt8) : Prop := ∀ t, ∃ a u, t = a ++ u ∧ f t = (a, u)

theorem optChar_splits (p : UInt8 → Bool) : Splits (optChar p) := by
  intro t
  cases t with
  | nil => exact ⟨[], [], rfl, rfl⟩
  | cons c t =>
    by_cases hc : p c = true
    · exact ⟨[c], t, rfl, by rw [optChar, if_pos hc]⟩
    · exact ⟨[], c :: t, rfl, by rw [optChar, if_neg hc]⟩

theorem digits_splits : Splits fun t => t.span isDigit :=
  fun _ => ⟨_, _, (List.takeWhile_append_dropWhile ..).symm, List.span_eq_takeWhile_dropWhile _ _⟩

theorem int_splits : Splits fun t => if t.head?.any isDigit && t.head? ≠ some 48 then t.span isDigit else ([], t) := by
  intro t
  dsimp only
  split_ifs
  · exact digits_splits t
  · exact ⟨[], t, rfl, rfl⟩

theorem frac_splits : Splits fun t =>
    if t.head? = some 46 ∧ t.tail.head?.any isDigit then (46 :: (t.tail.span isDigit).1, (t.tail.span isDigit).2)
    else ([], t) := by
  intro t
  dsimp only
  split_ifs with h
  · obtain ⟨a, u, ht, hspan⟩ := digits_splits t.tail
    dsimp only at hspan
    rw [hspan]
    exact ⟨46 :: a, u, by rw [List.cons_append, ← ht, List.cons_head?_tail h.1], rfl⟩
  · exact ⟨[], t, rfl, rfl⟩

theorem parseNumber_splits : Splits parseNumber := by
  intro t
  obtain ⟨a1, t1, rfl, h1⟩ := optChar_splits (· = 45) t
  obtain ⟨a2, t2, rfl, h2⟩ := optChar_splits (· = 48) t1
  obtain ⟨a3, t3, rfl, h3⟩ := int_splits t2
  obtain ⟨a4, t4, rfl, h4⟩ := frac_splits t3
  obtain ⟨a5, t5, rfl, h5⟩ := optChar_splits (fun c => c = 101 || c = 69) t4
  obtain ⟨a6, t6, rfl, h6⟩ := optChar_splits (fun c => c = 43 || c = 45) t5
  obtain ⟨a7, t7, rfl, h7⟩ := digits_splits t6
  unfold parseNumber
  simp only [h1, h2, h3, h4, h5, h6, h7]
  by_cases hexp : a5 = []
  · rw [if_pos hexp]
    exact ⟨_, _, by simp [hexp], rfl⟩
  · rw [if_neg hexp]
    exact ⟨_, _, by simp, rfl⟩

/-- A part of a text is read the same way whatever stands behind a stop. -/
def Within (f : List UInt8 → List UInt8 × List UInt8) : Prop :=
  ∀ x, ∃ a y, x = a ++ y ∧ ∀ c r, Stop c → f (x ++ c :: r) = (a, y ++ c :: r)

theorem optChar_within {p : UInt8 → Bool} (h : ∀ c, Stop c → p c = false) : Within (optChar p) := by
  intro x
  cases x with
  | nil => exact ⟨[], [], rfl, fun c r hc => by simp [optChar, h c hc]⟩
  | cons d x =>
    by_cases hd : p d = true
    · exact ⟨[d], x, rfl, fun c r _ => by simp [optChar, hd]⟩
    · exact ⟨[], d :: x, rfl, fun c r _ => by simp [optChar, hd]⟩

theorem digits_within : Within fun t => t.span isDigit := by
  intro x
  refine ⟨x.takeWhile isDigit, x.dropWhile isDigit, (List.takeWhile_append_dropWhile ..).symm, fun c r hc => ?_⟩
  have hdigit := hc.not_digit
  simp only [List.span_eq_takeWhile_dropWhile]
  induction x with
  | nil => simp [hdigit]
  | cons d x ih =>
    by_cases hd : isDigit d = true
    · simp only [List.cons_append, List.takeWhile_cons_of_pos hd, List.dropWhile_cons_of_pos hd]
      rw [(Prod.mk.inj ih).1, (Prod.mk.inj ih).2]
    · simp [List.takeWhile_cons_of_neg hd, List.dropWhile_cons_of_neg hd]

theorem int_within : Within fun t =>
    if t.head?.any isDigit && t.head? ≠ some 48 then t.span isDigit else ([], t) := by
  intro x
  cases x with
  | nil => exact ⟨[], [], rfl, fun c r hc => by simp [hc.not_digit]⟩
  | cons d x =>
    by_cases hd : (isDigit d && d ≠ 48) = true
    · obtain ⟨a, y, hx, h⟩ := digits_within (d :: x)
      refine ⟨a, y, hx, fun c r hc => ?_⟩
      have hspan := h c r hc
      simp only [List.cons_append] at hspan ⊢
      rw [if_pos (by simpa using hd), hspan]
    · refine ⟨[], d :: x, rfl, fun c r hc => ?_⟩
      dsimp only
      rw [if_neg (by simpa using hd)]

theorem frac_within : Within fun t =>
    if t.head? = some 46 ∧ t.tail.head?.any isDigit then (46 :: (t.tail.span isDigit).1, (t.tail.span isDigit).2)
    else ([], t) := by
  intro x
  rcases x with _ | ⟨d, _ | ⟨e, x⟩⟩
  · refine ⟨[], [], rfl, fun c r hc => ?_⟩
    have hdot : c ≠ 46 := hc.ne 46 (by decide) (by decide) (by decide) (by decide)
    simp [hdot]
  · exact ⟨[], [d], rfl, fun c r hc => by simp [hc.not_digit]⟩
  · by_cases hd : d = 46 ∧ isDigit e = true
    · obtain ⟨a, y, hx, h⟩ := digits_within (e :: x)
      refine ⟨46 :: a, y, by rw [hd.1, hx]; rfl, fun c r hc => ?_⟩
      have hspan := h c r hc
      dsimp only
      rw [if_pos (by simpa using hd)]
      simp only [List.cons_append, List.tail_cons] at hspan ⊢
      rw [hspan]
    · refine ⟨[], d :: e :: x, rfl, fun c r hc => ?_⟩
      dsimp only
      rw [if_neg (by simpa using hd)]

/-- **A number** ends before a stop. -/
theorem parseNumber_within : Within parseNumber := by
  have hne : ∀ d : UInt8, ¬ d ≤ 32 → d ≠ 44 → d ≠ 93 → d ≠ 125 → ∀ c, Stop c → decide (c = d) = false :=
    fun d h0 h1 h2 h3 c hc => by simpa using hc.ne d h0 h1 h2 h3
  have hminus := hne 45 (by decide) (by decide) (by decide) (by decide)
  have hplus := hne 43 (by decide) (by decide) (by decide) (by decide)
  have hzero := hne 48 (by decide) (by decide) (by decide) (by decide)
  have hsmall := hne 101 (by decide) (by decide) (by decide) (by decide)
  have hlarge := hne 69 (by decide) (by decide) (by decide) (by decide)
  intro x
  obtain ⟨a1, x1, rfl, h1⟩ := optChar_within hminus x
  obtain ⟨a2, x2, rfl, h2⟩ := optChar_within hzero x1
  obtain ⟨a3, x3, rfl, h3⟩ := int_within x2
  obtain ⟨a4, x4, rfl, h4⟩ := frac_within x3
  obtain ⟨a5, x5, rfl, h5⟩ := optChar_within (p := fun c => c = 101 || c = 69)
    (fun c hc => by simp only [hsmall c hc, hlarge c hc, Bool.or_self]) x4
  obtain ⟨a6, x6, rfl, h6⟩ := optChar_within (p := fun c => c = 43 || c = 45)
    (fun c hc => by simp only [hminus c hc, hplus c hc, Bool.or_self]) x5
  obtain ⟨a7, x7, rfl, h7⟩ := digits_within x6
  by_cases hexp : a5 = []
  · refine ⟨a1 ++ a2 ++ a3 ++ a4, a6 ++ (a7 ++ x7), by simp [hexp], fun c r hc => ?_⟩
    unfold parseNumber
    simp only [h1 c r hc, h2 c r hc, h3 c r hc, h4 c r hc, h5 c r hc]
    rw [if_pos hexp]
  · refine ⟨a1 ++ a2 ++ a3 ++ a4 ++ a5 ++ a6 ++ a7, x7, by simp, fun c r hc => ?_⟩
    unfold parseNumber
    simp only [h1 c r hc, h2 c r hc, h3 c r hc, h4 c r hc, h5 c r hc, h6 c r hc, h7 c r hc]
    rw [if_neg hexp]

/-! ## Values -/

/-- The text begins with a stop. -/
def Follows (r : List UInt8) : Prop := ∃ c t, r = c :: t ∧ Stop c

theorem follows_blank {bl q : List UInt8} (h : Blank bl) (hq : Follows q) : Follows (bl ++ q) := by
  cases bl with
  | nil => exact hq
  | cons c bl => exact ⟨c, bl ++ q, rfl, Or.inl (h c List.mem_cons_self)⟩

theorem Follows.ne_nil {r : List UInt8} (h : Follows r) : r ≠ [] := by
  obtain ⟨c, t, rfl, -⟩ := h
  exact List.cons_ne_nil c t

theorem stop_comma : Stop 44 := Or.inr (Or.inl rfl)

theorem stop_bracket : Stop 93 := Or.inr (Or.inr (Or.inl rfl))

theorem stop_brace : Stop 125 := Or.inr (Or.inr (Or.inr rfl))

/-- **A number** that a stop follows is all of what is in front of it. -/
theorem parseNumber_local {c : UInt8} {u a r : List UInt8} (hc : c = 45 ∨ isDigit c) (h : parseNumber (c :: u) = (a, r))
    (hr : Follows r) :
    c :: u = a ++ r ∧ a ≠ [] ∧ ∀ r', Follows r' → parseNumber (a ++ r') = (a, r') := by
  obtain ⟨d, q, rfl, hd⟩ := hr
  obtain ⟨a₁, q₁, ht, ha₁⟩ := parseNumber_splits (c :: u)
  rw [h] at ha₁
  obtain ⟨rfl, rfl⟩ := Prod.mk.inj ha₁
  obtain ⟨a', y, hy, hwithin⟩ := parseNumber_within a
  have hsame := hwithin d q hd
  rw [← ht, h] at hsame
  obtain ⟨rfl, -⟩ := Prod.mk.inj hsame
  obtain rfl : y = [] := by simpa using hy
  refine ⟨ht, ?_, ?_⟩
  · -- a number does not begin with a stop
    rintro rfl
    obtain ⟨rfl, rfl⟩ := List.cons.inj ht
    rcases hc with rfl | hc
    · exact hd.ne 45 (by decide) (by decide) (by decide) (by decide) rfl
    · rw [hd.not_digit] at hc
      exact absurd hc (by decide)
  · rintro _ ⟨e, q', rfl, he⟩
    exact hwithin e q' he

/-- The words and their values. -/
def words : List (List UInt8 × Value) := [(text "null", .null), (text "false", .false), (text "true", .true)]

theorem words_pos {w : List UInt8} {v : Value} (h : (w, v) ∈ words) : 0 < w.length := by
  simp only [words, List.mem_cons, Prod.mk.injEq, List.not_mem_nil, or_false] at h
  rcases h with ⟨rfl, -⟩ | ⟨rfl, -⟩ | ⟨rfl, -⟩ <;> decide

/-- The ways to read a value. -/
inductive ValueRead (n : ℕ) : List UInt8 → Value → List UInt8 → Prop
  | word {w v r} (h : (w, v) ∈ words) : ValueRead n (w ++ r) v r
  | string {u s r} (h : parseString (34 :: u) = some (s, r)) : ValueRead n (34 :: u) (.string s) r
  | number {c u a r} (hc : c = 45 ∨ isDigit c) (h : parseNumber (c :: u) = (a, r)) : ValueRead n (c :: u) (.number a) r
  | noElements {u r} (h : expect 93 (skip u) = some r) : ValueRead n (91 :: u) (.array []) r
  | elements {u l r} (hopen : expect 93 (skip u) = none)
      (h : parseElements (parseValue n) u.length (skip u) = some (l, r)) : ValueRead n (91 :: u) (.array l) r
  | noMembers {u r} (h : expect 125 (skip u) = some r) : ValueRead n (123 :: u) (.object []) r
  | members {u l r} (hopen : expect 125 (skip u) = none)
      (h : parseMembers (parseValue n) u.length (skip u) = some (l, r)) : ValueRead n (123 :: u) (.object l) r

/-- **The cases of a value.** -/
theorem parseValue_read {n : ℕ} {t r : List UInt8} {v : Value} (h : parseValue (n + 1) t = some (v, r)) :
    ValueRead n t v r := by
  have hword : ∀ (w : List UInt8) (v' : Value), (w, v') ∈ words → w.isPrefixOf t = true →
      some (v', t.drop w.length) = some (v, r) → ValueRead n t v r := by
    intro w v' hmem hw heq
    obtain ⟨u, rfl⟩ := List.isPrefixOf_iff_prefix.1 hw
    obtain ⟨rfl, rfl⟩ := Prod.mk.inj (Option.some.inj heq)
    rw [List.drop_left]
    exact .word hmem
  unfold parseValue at h
  split_ifs at h with hnull hfalse htrue
  · exact hword _ _ (by simp [words]) hnull h
  · exact hword _ _ (by simp [words]) hfalse h
  · exact hword _ _ (by simp [words]) htrue h
  · cases t with
    | nil => exact absurd h (by simp)
    | cons c u =>
      dsimp only at h
      split_ifs at h with hq hd ha ho
      · obtain ⟨⟨s, r'⟩, hs, hp⟩ := Option.map_eq_some_iff.1 h
        obtain ⟨rfl, rfl⟩ := Prod.mk.inj hp
        subst hq
        exact .string hs
      · obtain ⟨rfl, rfl⟩ := Prod.mk.inj (Option.some.inj h)
        exact .number hd rfl
      · subst ha
        cases hexpect : expect 93 (skip u) with
        | some r' =>
          rw [hexpect] at h
          obtain ⟨rfl, rfl⟩ := Prod.mk.inj (Option.some.inj h)
          exact .noElements hexpect
        | none =>
          rw [hexpect] at h
          obtain ⟨⟨l, r'⟩, hl, hp⟩ := Option.map_eq_some_iff.1 h
          obtain ⟨rfl, rfl⟩ := Prod.mk.inj hp
          exact .elements hexpect hl
      · subst ho
        cases hexpect : expect 125 (skip u) with
        | some r' =>
          rw [hexpect] at h
          obtain ⟨rfl, rfl⟩ := Prod.mk.inj (Option.some.inj h)
          exact .noMembers hexpect
        | none =>
          rw [hexpect] at h
          obtain ⟨⟨l, r'⟩, hl, hp⟩ := Option.map_eq_some_iff.1 h
          obtain ⟨rfl, rfl⟩ := Prod.mk.inj hp
          exact .members hexpect hl

theorem parseValue_word {word : List UInt8} {v : Value} (h : (word, v) ∈ words) (n : ℕ) (r : List UInt8) :
    parseValue (n + 1) (word ++ r) = some (v, r) := by
  simp only [words, List.mem_cons, Prod.mk.injEq, List.not_mem_nil, or_false] at h
  rcases h with ⟨rfl, rfl⟩ | ⟨rfl, rfl⟩ | ⟨rfl, rfl⟩ <;> rfl

theorem parseValue_number {c : UInt8} (hc : c = 45 ∨ isDigit c) (n : ℕ) (u : List UInt8) :
    parseValue (n + 1) (c :: u) = some (.number (parseNumber (c :: u)).1, (parseNumber (c :: u)).2) := by
  have hle : c ≤ 57 := by
    rcases hc with rfl | hc
    · decide
    · simp only [isDigit, Bool.and_eq_true, decide_eq_true_eq] at hc
      exact hc.2
  have hword : ∀ d w, ¬ d ≤ 57 → (d :: w).isPrefixOf (c :: u) = false := by
    intro d w hd
    have hne : d ≠ c := fun h => hd (h ▸ hle)
    rw [List.isPrefixOf, beq_false_of_ne hne, Bool.false_and]
  have hq : c ≠ 34 := by
    rintro rfl
    revert hc
    decide
  rw [parseValue, if_neg (by rw [show text "null" = 110 :: text "ull" from rfl, hword _ _ (by decide)]; simp),
    if_neg (by rw [show text "false" = 102 :: text "alse" from rfl, hword _ _ (by decide)]; simp),
    if_neg (by rw [show text "true" = 116 :: text "rue" from rfl, hword _ _ (by decide)]; simp)]
  rw [if_neg hq, if_pos hc]

theorem parseValue_string (n : ℕ) (u : List UInt8) :
    parseValue (n + 1) (34 :: u) = (parseString (34 :: u)).map fun p => (.string p.1, p.2) := rfl

theorem parseValue_array (n : ℕ) (u : List UInt8) :
    parseValue (n + 1) (91 :: u) =
      match expect 93 (skip u) with
      | some u => some (.array [], u)
      | none => (parseElements (parseValue n) u.length (skip u)).map fun p => (.array p.1, p.2) := rfl

theorem parseValue_object (n : ℕ) (u : List UInt8) :
    parseValue (n + 1) (123 :: u) =
      match expect 125 (skip u) with
      | some u => some (.object [], u)
      | none => (parseMembers (parseValue n) u.length (skip u)).map fun p => (.object p.1, p.2) := rfl

/-! ## What stands behind a value -/

/-- The values of a nesting below `n` are read the same way whatever follows, with fuel for their characters. -/
def ReadsLocally (n : ℕ) : Prop :=
  ∀ t v r, parseValue n t = some (v, r) → Follows r →
    ∃ w, t = w ++ r ∧ w ≠ [] ∧ ∀ m r', w.length ≤ m → Follows r' → parseValue m (w ++ r') = some (v, r')

variable {n : ℕ}

/-- A value behind white space. -/
theorem ReadsLocally.skip (h : ReadsLocally n) {t r : List UInt8} {v : Value}
    (hv : parseValue n (skip t) = some (v, r)) (hr : Follows r) :
    ∃ w, t = w ++ r ∧ w ≠ [] ∧
      ∀ m r', w.length ≤ m → Follows r' → parseValue m (Json.skip (w ++ r')) = some (v, r') := by
  obtain ⟨w, hskip, hw, hread⟩ := h _ _ _ hv hr
  obtain ⟨bl, ht, hskip'⟩ := skip_eq hskip hw
  refine ⟨bl ++ w, by rw [List.append_assoc, ← ht], by simp [hw], fun m r' hm hr' => ?_⟩
  rw [List.length_append] at hm
  rw [List.append_assoc, hskip']
  exact hread m r' (by omega) hr'

/-- What the loop of `parse_array` makes of the text behind an element. -/
def elementsTail (value : List UInt8 → Option (Value × List UInt8)) (k : ℕ) (q : List UInt8) :
    Option (List Value × List UInt8) :=
  match expect 44 (Json.skip q) with
  | some t => parseElements value k t
  | none => (expect 93 (Json.skip q)).map fun t => ([], t)

theorem elementsTail_comma {bl : List UInt8} (h : Blank bl) (value : List UInt8 → Option (Value × List UInt8)) (k : ℕ)
    (t : List UInt8) : elementsTail value k (bl ++ 44 :: t) = parseElements value k t := by
  rw [elementsTail, skip_blank h, skip_cons (by decide), expect_cons, if_pos rfl]

theorem elementsTail_bracket {bl : List UInt8} (h : Blank bl) (value : List UInt8 → Option (Value × List UInt8)) (k : ℕ)
    (t : List UInt8) : elementsTail value k (bl ++ 93 :: t) = some ([], t) := by
  rw [elementsTail, skip_blank h, skip_cons (by decide), expect_cons, if_neg (by decide), expect_cons, if_pos rfl]
  rfl

/-- One element and the text behind it. -/
theorem parseElements_succ (value : List UInt8 → Option (Value × List UInt8)) (k : ℕ) (t : List UInt8) :
    parseElements value (k + 1) t =
      (value (Json.skip t)).bind fun q => (elementsTail value k q.2).map fun z => (q.1 :: z.1, z.2) := by
  rw [parseElements]
  apply Option.bind_congr
  rintro ⟨v, t₁⟩ _
  unfold elementsTail
  dsimp only
  cases expect 44 (Json.skip t₁) with
  | some t => rfl
  | none => rw [Option.map_map]; rfl

/-- **The elements of an array** up to the closing bracket. -/
theorem parseElements_local (h : ReadsLocally n) : ∀ (k : ℕ) (t : List UInt8) (l : List Value) (r : List UInt8),
    parseElements (parseValue n) k t = some (l, r) →
    ∃ w, t = w ++ r ∧ w ≠ [] ∧ ∀ m k' r', w.length ≤ m → w.length ≤ k' →
      parseElements (parseValue m) k' (w ++ r') = some (l, r') := by
  intro k
  induction k with
  | zero => intro t l r hl; exact absurd hl (by simp [parseElements])
  | succ k ih =>
    intro t l r hl
    rw [parseElements_succ] at hl
    obtain ⟨⟨v, t₁⟩, hv, hl⟩ := Option.bind_eq_some_iff.1 hl
    obtain ⟨⟨l₂, r₂⟩, htail, hp⟩ := Option.map_eq_some_iff.1 hl
    obtain ⟨rfl, rfl⟩ := Prod.mk.inj hp
    unfold elementsTail at htail
    cases hcomma : expect 44 (Json.skip t₁) with
    | some t₂ =>
      -- another element
      rw [hcomma] at htail
      obtain ⟨bl, hbl, rfl⟩ := expect_skip hcomma
      obtain ⟨wv, rfl, hwv, hread⟩ := h.skip hv (follows_blank hbl ⟨44, t₂, rfl, stop_comma⟩)
      obtain ⟨w, rfl, hw, hrest⟩ := ih t₂ l₂ r₂ htail
      refine ⟨wv ++ (bl ++ 44 :: w), by simp, by simp [hwv], fun m k' r' hm hk => ?_⟩
      have htext : wv ++ (bl ++ 44 :: w) ++ r' = wv ++ (bl ++ 44 :: (w ++ r')) := by simp
      simp only [List.length_append, List.length_cons] at hm hk
      obtain ⟨k', rfl⟩ := Nat.exists_eq_succ_of_ne_zero (show k' ≠ 0 by omega)
      rw [htext, parseElements_succ, hread m _ (by omega) (follows_blank hbl ⟨44, _, rfl, stop_comma⟩), Option.bind_some,
        elementsTail_comma hbl, hrest m k' r' (by omega) (by omega)]
      rfl
    | none =>
      -- the last one
      rw [hcomma] at htail
      obtain ⟨r₃, hclose, hp⟩ := Option.map_eq_some_iff.1 htail
      obtain ⟨rfl, rfl⟩ := Prod.mk.inj hp
      obtain ⟨bl, hbl, rfl⟩ := expect_skip hclose
      obtain ⟨wv, rfl, hwv, hread⟩ := h.skip hv (follows_blank hbl ⟨93, r₃, rfl, stop_bracket⟩)
      refine ⟨wv ++ (bl ++ [93]), by simp, by simp [hwv], fun m k' r' hm hk => ?_⟩
      have htext : wv ++ (bl ++ [93]) ++ r' = wv ++ (bl ++ 93 :: r') := by simp
      simp only [List.length_append, List.length_cons] at hm hk
      obtain ⟨k', rfl⟩ := Nat.exists_eq_succ_of_ne_zero (show k' ≠ 0 by omega)
      rw [htext, parseElements_succ, hread m _ (by omega) (follows_blank hbl ⟨93, _, rfl, stop_bracket⟩),
        Option.bind_some, elementsTail_bracket hbl]
      rfl

/-- What the loop of `parse_object` makes of the text behind a member. -/
def membersTail (value : List UInt8 → Option (Value × List UInt8)) (k : ℕ) (q : List UInt8) :
    Option (List (List UInt8 × Value) × List UInt8) :=
  match expect 44 (skip q) with
  | some t => parseMembers value k t
  | none => (expect 125 (skip q)).map fun t => ([], t)

theorem membersTail_blank {bl : List UInt8} (h : Blank bl) (value : List UInt8 → Option (Value × List UInt8)) (k : ℕ)
    (q : List UInt8) : membersTail value k (bl ++ q) = membersTail value k q := by
  rw [membersTail, skip_blank h]
  rfl

theorem membersTail_comma (value : List UInt8 → Option (Value × List UInt8)) (k : ℕ) (t : List UInt8) :
    membersTail value k (44 :: t) = parseMembers value k t := by
  rw [membersTail, skip_cons (by decide), expect_cons, if_pos rfl]

theorem membersTail_brace (value : List UInt8 → Option (Value × List UInt8)) (k : ℕ) (t : List UInt8) :
    membersTail value k (125 :: t) = some ([], t) := by
  rw [membersTail, skip_cons (by decide), expect_cons, if_neg (by decide), expect_cons, if_pos rfl]
  rfl

/-- One member and the text behind it. -/
theorem parseMembers_succ (value : List UInt8 → Option (Value × List UInt8)) (k : ℕ) (t : List UInt8) :
    parseMembers value (k + 1) t =
      (parseString (skip t)).bind fun p => (expect 58 (skip p.2)).bind fun u => (value (skip u)).bind fun q =>
        (membersTail value k q.2).map fun z => ((p.1, q.1) :: z.1, z.2) := by
  rw [parseMembers]
  apply Option.bind_congr
  rintro ⟨name, t₁⟩ _
  apply Option.bind_congr
  intro u _
  apply Option.bind_congr
  rintro ⟨v, t₃⟩ _
  unfold membersTail
  dsimp only
  cases expect 44 (skip t₃) with
  | some t => rfl
  | none => rw [Option.map_map]; rfl

/-- **One member**: what is in front of the text behind it. -/
theorem member_local (h : ReadsLocally n) {t t₁ t₂ q name : List UInt8} {v : Value}
    (hname : parseString (Json.skip t) = some (name, t₁)) (hcolon : expect 58 (Json.skip t₁) = some t₂)
    (hv : parseValue n (Json.skip t₂) = some (v, q)) (hq : Follows q) :
    ∃ w, t = w ++ q ∧ w ≠ [] ∧ ∀ m k q z, w.length ≤ m → Follows q → membersTail (parseValue m) k q = some z →
      parseMembers (parseValue m) (k + 1) (w ++ q) = some ((name, v) :: z.1, z.2) := by
  obtain ⟨bc, hbc, rfl⟩ := expect_skip hcolon
  obtain ⟨wn, hskip, hstring⟩ := parseString_local hname (by simp)
  obtain ⟨bn, rfl, hskip'⟩ := skip_eq hskip (List.cons_ne_nil _ _)
  obtain ⟨wv, rfl, hwv, hread⟩ := h.skip hv hq
  refine ⟨bn ++ (34 :: wn ++ (bc ++ 58 :: wv)), by simp, by simp, fun m k q' z hm hq' hz => ?_⟩
  have htext : bn ++ (34 :: wn ++ (bc ++ 58 :: wv)) ++ q' = bn ++ (34 :: wn ++ (bc ++ 58 :: (wv ++ q'))) := by simp
  simp only [List.length_append, List.length_cons] at hm
  rw [htext, parseMembers_succ, hskip', hstring]
  simp only [Option.bind_some, skip_blank hbc]
  rw [skip_cons (by decide), expect_cons, if_pos rfl]
  simp only [Option.bind_some, hread m q' (by omega) hq', hz, Option.map_some]

/-- **The members of an object** up to the closing brace, whatever stands there instead of it. -/
theorem parseMembers_local (h : ReadsLocally n) : ∀ (k : ℕ) (t : List UInt8) (l : List (List UInt8 × Value))
    (r : List UInt8), parseMembers (parseValue n) k t = some (l, r) →
    ∃ w, t = w ++ 125 :: r ∧ w ≠ [] ∧ ∀ m k' q l' r', w.length ≤ m → w.length < k' → Follows q →
      (∀ k'', 0 < k'' → membersTail (parseValue m) k'' q = some (l', r')) →
      parseMembers (parseValue m) k' (w ++ q) = some (l ++ l', r') := by
  intro k
  induction k with
  | zero => intro t l r hl; exact absurd hl (by simp [parseMembers])
  | succ k ih =>
    intro t l r hl
    rw [parseMembers_succ] at hl
    obtain ⟨⟨name, t₁⟩, hname, hl⟩ := Option.bind_eq_some_iff.1 hl
    obtain ⟨t₂, hcolon, hl⟩ := Option.bind_eq_some_iff.1 hl
    obtain ⟨⟨v, t₃⟩, hv, hl⟩ := Option.bind_eq_some_iff.1 hl
    obtain ⟨⟨l₂, r₂⟩, htail, hp⟩ := Option.map_eq_some_iff.1 hl
    obtain ⟨rfl, rfl⟩ := Prod.mk.inj hp
    unfold membersTail at htail
    cases hcomma : expect 44 (Json.skip t₃) with
    | some t₄ =>
      -- another member
      rw [hcomma] at htail
      obtain ⟨bl, hbl, rfl⟩ := expect_skip hcomma
      obtain ⟨wm, rfl, hwm, hmember⟩ := member_local h hname hcolon hv (follows_blank hbl ⟨44, t₄, rfl, stop_comma⟩)
      obtain ⟨w, rfl, hw, hrest⟩ := ih t₄ l₂ r₂ htail
      refine ⟨wm ++ (bl ++ 44 :: w), by simp, by simp [hwm], fun m k' q l' r' hm hk hq hz => ?_⟩
      have htext : wm ++ (bl ++ 44 :: w) ++ q = wm ++ (bl ++ 44 :: (w ++ q)) := by simp
      simp only [List.length_append, List.length_cons] at hm hk
      obtain ⟨k', rfl⟩ := Nat.exists_eq_succ_of_ne_zero (show k' ≠ 0 by omega)
      have hbehind : membersTail (parseValue m) k' (bl ++ 44 :: (w ++ q)) = some (l₂ ++ l', r') := by
        rw [membersTail_blank hbl, membersTail_comma]
        exact hrest m k' q l' r' (by omega) (by omega) hq hz
      rw [htext, hmember m k' _ _ (by omega) (follows_blank hbl ⟨44, _, rfl, stop_comma⟩) hbehind]
      rfl
    | none =>
      -- the last one
      rw [hcomma] at htail
      obtain ⟨r₃, hclose, hp⟩ := Option.map_eq_some_iff.1 htail
      obtain ⟨rfl, rfl⟩ := Prod.mk.inj hp
      obtain ⟨bl, hbl, rfl⟩ := expect_skip hclose
      obtain ⟨wm, rfl, hwm, hmember⟩ := member_local h hname hcolon hv (follows_blank hbl ⟨125, r₃, rfl, stop_brace⟩)
      have hpos := List.length_pos_iff.2 hwm
      refine ⟨wm ++ bl, by simp, by simp [hwm], fun m k' q l' r' hm hk hq hz => ?_⟩
      rw [List.length_append] at hm hk
      obtain ⟨k', rfl⟩ := Nat.exists_eq_succ_of_ne_zero (show k' ≠ 0 by omega)
      have hbehind : membersTail (parseValue m) k' (bl ++ q) = some (l', r') := by
        rw [membersTail_blank hbl]
        exact hz k' (by omega)
      rw [List.append_assoc, hmember m k' _ _ (by omega) (follows_blank hbl hq) hbehind]
      rfl

/-- **An object** is read the same way whatever stands behind its closing brace, and more members can stand before
the brace. -/
theorem parseObject_local (h : ReadsLocally n) {t r : List UInt8} {l : List (List UInt8 × Value)}
    (hv : parseValue (n + 1) t = some (.object l, r)) :
    ∃ w, t = w ++ 125 :: r ∧ w ≠ [] ∧
      (∀ m r', w.length < m → parseValue m (w ++ 125 :: r') = some (.object l, r')) ∧
      ∃ sep, 0 ∉ sep ∧ ∀ m e l' r', w.length < m →
        (∀ k, 0 < k → parseMembers (parseValue m) k (34 :: e) = some (l', r')) →
        parseValue (m + 1) (w ++ (sep ++ 34 :: e)) = some (.object (l ++ l'), r') := by
  cases parseValue_read hv with
  | word hword => exact absurd hword (by simp [words])
  | noMembers hclose =>
    obtain ⟨bl, hbl, rfl⟩ := expect_skip hclose
    refine ⟨123 :: bl, rfl, by simp, fun m r' hm => ?_, [], by simp, fun m e l' r' hm he => ?_⟩
    · obtain ⟨m, rfl⟩ := Nat.exists_eq_succ_of_ne_zero (show m ≠ 0 by omega)
      rw [List.cons_append, parseValue_object, skip_blank hbl, skip_cons (by decide), expect_cons, if_pos rfl]
    · rw [List.nil_append, List.cons_append, parseValue_object, skip_blank hbl, skip_cons (by decide), expect_cons,
        if_neg (by decide)]
      simp only
      rw [he _ (by simp)]
      rfl
  | members hopen hl =>
    obtain ⟨w, hskip, hw, hread⟩ := parseMembers_local h _ _ _ _ hl
    obtain ⟨bl, rfl, hskip'⟩ := skip_eq hskip hw
    rw [hskip] at hopen
    -- the text behind the opening brace, up to the closing one
    have hmembers : ∀ m q l' r', (123 :: (bl ++ w)).length ≤ m → Follows q →
        (∀ k, 0 < k → membersTail (parseValue m) k q = some (l', r')) →
        parseValue (m + 1) (123 :: (bl ++ w) ++ q) = some (.object (l ++ l'), r') := by
      intro m q l' r' hm hq hz
      rw [List.length_cons, List.length_append] at hm
      rw [List.cons_append, List.append_assoc, parseValue_object, hskip', expect_none hw hopen]
      simp only
      obtain ⟨c, t, rfl, -⟩ := id hq
      rw [hread m _ _ l' r' (by omega) (by simp; omega) hq hz]
      rfl
    refine ⟨123 :: (bl ++ w), by simp, by simp, fun m r' hm => ?_, [44], by simp, fun m e l' r' hm he => ?_⟩
    · obtain ⟨m, rfl⟩ := Nat.exists_eq_succ_of_ne_zero (show m ≠ 0 by omega)
      have hclosed := hmembers m (125 :: r') [] r' (by omega) ⟨125, r', rfl, stop_brace⟩
        fun k _ => membersTail_brace _ _ _
      rw [List.append_nil] at hclosed
      exact hclosed
    · apply hmembers m _ l' r' hm.le ⟨44, 34 :: e, rfl, stop_comma⟩
      intro k hk
      rw [membersTail_comma]
      exact he k hk

/-- An object as a value. -/
theorem object_local (h : ReadsLocally n) {t r : List UInt8} {l : List (List UInt8 × Value)}
    (hv : parseValue (n + 1) t = some (.object l, r)) :
    ∃ w, t = w ++ r ∧ w ≠ [] ∧
      ∀ m r', w.length ≤ m → Follows r' → parseValue m (w ++ r') = some (.object l, r') := by
  obtain ⟨w, ht, -, hread, -⟩ := parseObject_local h hv
  refine ⟨w ++ [125], by simp [ht], by simp, fun m r' hm _ => ?_⟩
  rw [List.length_append, List.length_singleton] at hm
  rw [List.append_assoc, List.singleton_append]
  exact hread m r' (by omega)

/-- **Every value is read the same way whatever follows.** -/
theorem parseValue_local : ∀ n, ReadsLocally n := by
  intro n
  induction n with
  | zero => intro t v r hv; exact absurd hv (by simp [parseValue])
  | succ n ih =>
    intro t v r hv hr
    cases parseValue_read hv with
    | @word w _ _ hword =>
      have hlen := words_pos hword
      refine ⟨w, rfl, List.length_pos_iff.1 hlen, fun m r' hm _ => ?_⟩
      obtain ⟨m, rfl⟩ := Nat.exists_eq_succ_of_ne_zero (show m ≠ 0 by omega)
      exact parseValue_word hword m r'
    | string hs =>
      obtain ⟨w, ht, hread⟩ := parseString_local hs hr.ne_nil
      refine ⟨34 :: w, ht, by simp, fun m r' hm _ => ?_⟩
      rw [List.length_cons] at hm
      obtain ⟨m, rfl⟩ := Nat.exists_eq_succ_of_ne_zero (show m ≠ 0 by omega)
      rw [List.cons_append, parseValue_string, ← List.cons_append, hread]
      rfl
    | @number c u a _ hc ha =>
      obtain ⟨ht, hne, hread⟩ := parseNumber_local hc ha hr
      obtain ⟨d, w, rfl⟩ := List.exists_cons_of_ne_nil hne
      obtain ⟨rfl, -⟩ := List.cons.inj ht
      refine ⟨c :: w, ht, hne, fun m r' hm hr' => ?_⟩
      rw [List.length_cons] at hm
      obtain ⟨m, rfl⟩ := Nat.exists_eq_succ_of_ne_zero (show m ≠ 0 by omega)
      rw [List.cons_append, parseValue_number hc, ← List.cons_append, hread r' hr']
    | noElements hclose =>
      obtain ⟨bl, hbl, rfl⟩ := expect_skip hclose
      refine ⟨91 :: (bl ++ [93]), by simp, by simp, fun m r' hm _ => ?_⟩
      rw [List.length_cons] at hm
      obtain ⟨m, rfl⟩ := Nat.exists_eq_succ_of_ne_zero (show m ≠ 0 by omega)
      have htext : 91 :: (bl ++ [93]) ++ r' = 91 :: (bl ++ 93 :: r') := by simp
      rw [htext, parseValue_array, skip_blank hbl, skip_cons (by decide), expect_cons, if_pos rfl]
    | elements hopen hl =>
      obtain ⟨w, hskip, hw, hread⟩ := parseElements_local ih _ _ _ _ hl
      obtain ⟨bl, rfl, hskip'⟩ := skip_eq hskip hw
      rw [hskip] at hopen
      refine ⟨91 :: (bl ++ w), by simp, by simp, fun m r' hm _ => ?_⟩
      rw [List.length_cons, List.length_append] at hm
      obtain ⟨m, rfl⟩ := Nat.exists_eq_succ_of_ne_zero (show m ≠ 0 by omega)
      rw [List.cons_append, List.append_assoc, parseValue_array, hskip', expect_none hw hopen]
      simp only
      rw [hread m _ r' (by omega) (by simp; omega)]
      rfl
    | noMembers => exact object_local ih hv
    | members => exact object_local ih hv

/-! ## Texts of objects -/

/-- The text, from its opening quote on, is read as the members `l`. -/
def ReadsMembers (t : List UInt8) (l : List (List UInt8 × Value)) : Prop :=
  ∃ r, ∀ m k, 0 < m → 0 < k → parseMembers (parseValue m) k (34 :: t) = some (l, r)

/-- A text of an object, up to its closing brace. -/
theorem cJSONParse_object {t : List UInt8} {l : List (List UInt8 × Value)} (h : cJSONParse t = some (.object l)) :
    ∃ w r, t = w ++ 125 :: r ∧ (∀ r', cJSONParse (w ++ 125 :: r') = some (.object l)) ∧
      ∃ sep, 0 ∉ sep ∧ ∀ e l', ReadsMembers e l' → cJSONParse (w ++ (sep ++ 34 :: e)) = some (.object (l ++ l')) := by
  obtain ⟨⟨v, r⟩, hv, hp⟩ := Option.map_eq_some_iff.1 h
  obtain rfl : v = .object l := hp
  obtain ⟨w, hskip, hw, hclosed, sep, hsep, hmore⟩ := parseObject_local (parseValue_local t.length) hv
  obtain ⟨bl, rfl, hskip'⟩ := skip_eq hskip hw
  refine ⟨bl ++ w, r, by simp, fun r' => ?_, sep, hsep, fun e l' he => ?_⟩
  · rw [cJSONParse, List.append_assoc, hskip', hclosed]
    · rfl
    · simp only [List.length_append, List.length_cons]
      omega
  · obtain ⟨r', hr'⟩ := he
    have hlen : w.length < (bl ++ (w ++ (sep ++ 34 :: e))).length := by
      simp only [List.length_append, List.length_cons]
      omega
    rw [cJSONParse, List.append_assoc, hskip', hmore _ e l' r' hlen fun k hk => hr' _ k (by omega) hk]
    rfl

/-- **Text behind an object is ignored.** -/
theorem cJSONParse_append {t : List UInt8} {l : List (List UInt8 × Value)} (h : cJSONParse t = some (.object l))
    (s : List UInt8) : cJSONParse (t ++ s) = some (.object l) := by
  obtain ⟨w, r, rfl, hclosed, -⟩ := cJSONParse_object h
  rw [List.append_assoc, List.cons_append]
  exact hclosed (r ++ s)

/-- **An object that is cut off** can be closed behind more members. -/
theorem cJSONParse_insert {p s : List UInt8} {l : List (List UInt8 × Value)}
    (h : cJSONParse (p ++ s) = some (.object l)) (hp : ∀ l, cJSONParse p ≠ some (.object l)) :
    ∃ x sep, x <+: s ∧ 0 ∉ sep ∧
      ∀ e l', ReadsMembers e l' → cJSONParse (p ++ (x ++ (sep ++ 34 :: e))) = some (.object (l ++ l')) := by
  obtain ⟨w, r, ht, hclosed, sep, hsep, hmore⟩ := cJSONParse_object h
  -- the closing brace is not in `p`
  have hprefix : p <+: w := by
    rcases List.append_eq_append_iff.1 ht with ⟨x, hw, -⟩ | ⟨x, hpx, hs⟩
    · exact ⟨x, hw.symm⟩
    · cases x with
      | nil => exact ⟨[], by simp [hpx]⟩
      | cons c x =>
        obtain ⟨rfl, -⟩ := List.cons.inj hs
        exact absurd (hclosed x) (hpx ▸ hp l)
  obtain ⟨x, rfl⟩ := hprefix
  rw [List.append_assoc, List.append_cancel_left_eq] at ht
  refine ⟨x, sep, ⟨125 :: r, ht.symm⟩, hsep, fun e l' he => ?_⟩
  rw [← List.append_assoc]
  exact hmore e l' he

end W601.Json
