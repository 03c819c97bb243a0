import W601.Json.Bounded
import W601.Json.Extend

/-!
# The text in a block

Where a block has no NUL and the parser does not leave it, the value is the one that the parser of texts makes of its
bytes.

* `parseString_ok`, `parseNumber_ok`, `parseValue_ok`: what is read, and that the rest is an end of the text.
* `cJSONParse_text`: the value of a block.
-/

namespace W601.Json.Bounded

open Scan

theorem skip_ok {t u : List UInt8} (h : skip t = .ok u) (h0 : 0 ∉ t) : Json.skip t = u ∧ u <:+ t ∧ u ≠ [] := by
  obtain ⟨rfl, hne⟩ := skipWhile_ok h
  have heq : Json.skip t = t.dropWhile fun c => c ≠ 0 && c ≤ 32 := by
    unfold Json.skip
    clear h hne
    induction t with
    | nil => rfl
    | cons c t ih =>
      have hc : c ≠ 0 := fun h => h0 (h ▸ List.mem_cons_self)
      rw [List.dropWhile_cons, List.dropWhile_cons, ih fun h => h0 (List.mem_cons_of_mem c h)]
      simp [hc]
  exact ⟨heq, List.dropWhile_suffix _, hne⟩

theorem itemIf_ok {p : UInt8 → Bool} {t : List UInt8} {q : List UInt8 × List UInt8} (h : itemIf p t = .ok q) :
    optChar p t = q := by
  cases t with
  | nil => cases h
  | cons c t =>
    rw [itemIf] at h
    rw [optChar]
    split_ifs at h ⊢ with hc
    · cases h; rfl
    · cases h; rfl

theorem parseHex4_ok {t u : List UInt8} {uc : ℕ} (h : parseHex4 t = .ok uc) (hu : advance 4 t = .ok u) :
    ∃ a b c d, t = a :: b :: c :: d :: u ∧ Json.parseHex4 a b c d = uc := by
  obtain ⟨hlen, rfl⟩ := advance_ok hu
  match t, hlen with
  | a :: b :: c :: d :: t, _ =>
    refine ⟨a, b, c, d, rfl, ?_⟩
    simp only [parseHex4, hexDigits, item, ok_bind] at h
    unfold Json.parseHex4
    cases ha : hexDigit a with
    | none => rw [ha] at h; cases h; rfl
    | some w =>
      cases hb : hexDigit b with
      | none => simp only [ha, hb] at h; cases h; rfl
      | some x =>
        cases hc : hexDigit c with
        | none => simp only [ha, hb, hc] at h; cases h; rfl
        | some y =>
          cases hd : hexDigit d with
          | none => simp only [ha, hb, hc, hd] at h; cases h; rfl
          | some z =>
            simp only [ha, hb, hc, hd] at h
            cases h
            simp
theorem parseSurrogate_ok {uc : ℕ} {t s r : List UInt8} (h : parseSurrogate uc t = .ok (s, r)) :
    Json.parseSurrogate uc t = some (s, r) ∧ r <:+ t := by
  obtain ⟨⟨b, u⟩, hb, h⟩ := bind_eq_ok.1 h
  obtain rfl := item_ok hb
  simp only at h
  split_ifs at h with hback
  · cases h
    unfold Json.parseSurrogate
    exact ⟨if_pos (Or.inl hback), List.suffix_rfl⟩
  obtain ⟨⟨e, v⟩, he, h⟩ := bind_eq_ok.1 h
  obtain rfl := item_ok he
  simp only at h
  split_ifs at h with hu
  · cases h
    unfold Json.parseSurrogate
    exact ⟨if_pos (Or.inr (by simpa using hu)), List.suffix_rfl⟩
  obtain ⟨uc2, huc, h⟩ := bind_eq_ok.1 h
  obtain ⟨t', hadv, h⟩ := bind_eq_ok.1 h
  obtain ⟨a, x, c, d, rfl, rfl⟩ := parseHex4_ok huc hadv
  have hsuffix : t' <:+ b :: e :: a :: x :: c :: d :: t' := ⟨[b, e, a, x, c, d], rfl⟩
  have hgo : ¬ (b ≠ 92 ∨ (e :: a :: x :: c :: d :: t').head? ≠ some 117) := by
    push Not at hback hu ⊢
    exact ⟨hback, by rw [hu]; rfl⟩
  rw [Json.parseSurrogate, if_neg hgo]
  simp only
  split_ifs at h ⊢ with hpair
  · cases h; exact ⟨rfl, hsuffix⟩
  · cases h; exact ⟨rfl, hsuffix⟩

theorem parseEscape_ok {t s r : List UInt8} (h : parseEscape t = .ok (s, r)) :
    Json.parseEscape t = some (s, r) ∧ r <:+ t := by
  unfold parseEscape at h
  rw [bind_eq_ok] at h
  obtain ⟨⟨e, u⟩, he, h⟩ := h
  obtain rfl := item_ok he
  simp only at h
  rw [Json.parseEscape]
  split_ifs at h ⊢ with hu
  · obtain ⟨uc, huc, h⟩ := bind_eq_ok.1 h
    obtain ⟨t', hadv, h⟩ := bind_eq_ok.1 h
    obtain ⟨a, b, c, d, rfl, rfl⟩ := parseHex4_ok huc hadv
    have hsuffix : t' <:+ e :: a :: b :: c :: d :: t' := ⟨[e, a, b, c, d], rfl⟩
    rw [Json.parseUnicode]
    split_ifs at h ⊢ with hnone hpair
    · cases h; exact ⟨rfl, hsuffix⟩
    · obtain ⟨hs, hr⟩ := parseSurrogate_ok h
      exact ⟨hs, hr.trans hsuffix⟩
    · cases h; exact ⟨rfl, hsuffix⟩
  · cases h
    exact ⟨rfl, List.suffix_cons e r⟩

theorem parseChars_ok {n : ℕ} {t s r : List UInt8} (h : parseChars n t = .ok (s, r)) (h0 : 0 ∉ t) :
    Json.parseChars n t = some (s, r) ∧ r <:+ t := by
  induction n generalizing t s with
  | zero => cases h
  | succ n ih =>
    obtain ⟨⟨c, u⟩, hc, h⟩ := bind_eq_ok.1 h
    obtain rfl := item_ok hc
    have hu0 : 0 ∉ u := fun hu => h0 (List.mem_cons_of_mem c hu)
    have hne : c ≠ 0 := fun hc => h0 (hc ▸ List.mem_cons_self)
    simp only [if_neg hne] at h
    rw [Json.parseChars]
    split_ifs at h ⊢ with hquote hplain
    · cases h
      exact ⟨rfl, List.suffix_cons c r⟩
    · obtain ⟨⟨s', t'⟩, hrec, h⟩ := bind_eq_ok.1 h
      cases h
      obtain ⟨hs, hr⟩ := ih hrec hu0
      rw [hs]
      exact ⟨rfl, hr.trans (List.suffix_cons c u)⟩
    · obtain ⟨⟨w, v⟩, hesc, h⟩ := bind_eq_ok.1 h
      obtain ⟨⟨s', t'⟩, hrec, h⟩ := bind_eq_ok.1 h
      cases h
      obtain ⟨hw, hv⟩ := parseEscape_ok hesc
      obtain ⟨hs, hr⟩ := ih hrec fun hz => hu0 (hv.subset hz)
      rw [hw, Option.bind_some, hs]
      exact ⟨rfl, hr.trans (hv.trans (List.suffix_cons c u))⟩

theorem parseString_ok {g g' : ℕ} {t s r : List UInt8} (h : parseString g t = .ok ((s, g'), r)) (h0 : 0 ∉ t) :
    Json.parseString t = some (s, r) ∧ r <:+ t := by
  unfold parseString at h
  rw [bind_eq_ok] at h
  obtain ⟨⟨c, u⟩, hc, h⟩ := h
  obtain rfl := item_ok hc
  simp only at h
  split_ifs at h with hquote
  obtain ⟨len, -, h⟩ := bind_eq_ok.1 h
  cases g with
  | zero => cases h
  | succ g =>
    obtain ⟨⟨s', t'⟩, hchars, h⟩ := bind_eq_ok.1 h
    simp only at h
    split_ifs at h
    cases h
    obtain ⟨hs, hr⟩ := parseChars_ok hchars fun hu => h0 (List.mem_cons_of_mem c hu)
    rw [Json.parseString, if_pos (not_not.1 hquote), hs]
    exact ⟨rfl, hr.trans (List.suffix_cons c u)⟩

theorem parseInt_ok {t : List UInt8} {q : List UInt8 × List UInt8} (h : parseInt t = .ok q) :
    (if t.head?.any isDigit && t.head? ≠ some 48 then t.span isDigit else ([], t)) = q := by
  unfold parseInt at h
  rw [bind_eq_ok] at h
  obtain ⟨⟨c, u⟩, hc, h⟩ := h
  obtain rfl := item_ok hc
  simp only at h
  have hcond : ((c :: u).head?.any isDigit && (c :: u).head? ≠ some 48) = true ↔ isDigit c = true ∧ c ≠ 48 := by simp
  simp only [hcond]
  split_ifs at h ⊢ with hd
  · exact takeWhile_ok h
  · cases h; rfl

theorem parseFrac_ok {t : List UInt8} {q : List UInt8 × List UInt8} (h : parseFrac t = .ok q) :
    (if t.head? = some 46 ∧ t.tail.head?.any isDigit then (46 :: (t.tail.span isDigit).1, (t.tail.span isDigit).2)
      else ([], t)) = q := by
  unfold parseFrac at h
  rw [bind_eq_ok] at h
  obtain ⟨⟨c, u⟩, hc, h⟩ := h
  obtain rfl := item_ok hc
  simp only at h
  by_cases hpoint : c = 46
  · rw [if_pos hpoint, bind_eq_ok] at h
    obtain ⟨⟨d, v⟩, hd, h⟩ := h
    obtain rfl := item_ok hd
    have hcond : ((c :: d :: v).head? = some 46 ∧ (c :: d :: v).tail.head?.any isDigit) ↔ isDigit d = true := by
      simp [hpoint]
    simp only [hcond]
    simp only at h
    split_ifs at h ⊢ with hdigit
    · rw [bind_eq_ok] at h
      obtain ⟨⟨ds, t⟩, hds, h⟩ := h
      cases h
      rw [List.tail_cons, takeWhile_ok hds]
    · cases h; rfl
  · rw [if_neg hpoint] at h
    cases h
    rw [if_neg]
    simp [hpoint]

theorem parseNumber_ok {t : List UInt8} {q : List UInt8 × List UInt8} (h : parseNumber t = .ok q) :
    Json.parseNumber t = q ∧ q.2 <:+ t := by
  have heq : Json.parseNumber t = q := by
    unfold parseNumber at h
    rw [bind_eq_ok] at h
    obtain ⟨⟨sign, t₁⟩, hsign, h⟩ := h
    rw [bind_eq_ok] at h
    obtain ⟨⟨zero, t₂⟩, hzero, h⟩ := h
    rw [bind_eq_ok] at h
    obtain ⟨⟨int, t₃⟩, hint, h⟩ := h
    rw [bind_eq_ok] at h
    obtain ⟨⟨frac, t₄⟩, hfrac, h⟩ := h
    rw [bind_eq_ok] at h
    obtain ⟨⟨e, t₅⟩, he, h⟩ := h
    unfold Json.parseNumber
    simp only [itemIf_ok hsign, itemIf_ok hzero, parseInt_ok hint, parseFrac_ok hfrac, itemIf_ok he]
    simp only at h
    split_ifs at h ⊢ with hexp
    · cases h; rfl
    · rw [bind_eq_ok] at h
      obtain ⟨⟨esign, t₆⟩, hesign, h⟩ := h
      rw [bind_eq_ok] at h
      obtain ⟨⟨ds, t₇⟩, hds, h⟩ := h
      cases h
      simp only [itemIf_ok hesign, takeWhile_ok hds]
  obtain ⟨a, u, ht, hau⟩ := parseNumber_splits t
  refine ⟨heq, ?_⟩
  rw [← heq, hau]
  exact ⟨a, ht.symm⟩

/-- The parser of texts reads the same, and the rest is an end of the text. -/
def Refines {α : Type} (t : List UInt8) (x : Scan (Parsed α)) (y : Option (α × List UInt8)) : Prop :=
  ∀ a g r, x = .ok ((a, g), r) → y = some (a, r) ∧ r <:+ t

section Loops

variable {value : ℕ → List UInt8 → Scan (Parsed Value)} {value' : List UInt8 → Option (Value × List UInt8)} {m : ℕ}

/-- A character that is read and is the one expected, or not. -/
theorem expect_eq (c d : UInt8) (t : List UInt8) : expect c (d :: t) = if d = c then some t else none := rfl

/-- White space in front of a character. -/
theorem skip_item {t u v : List UInt8} {c : UInt8} (hs : skip t = .ok u) (hi : item u = .ok (c, v)) (h0 : 0 ∉ t) :
    Json.skip t = c :: v ∧ v <:+ t ∧ v.length < t.length ∧ 0 ∉ v := by
  obtain ⟨hskip, hu, -⟩ := skip_ok hs h0
  obtain rfl := item_ok hi
  have hv : v <:+ t := (List.suffix_cons c v).trans hu
  have hlen := hu.length_le
  rw [List.length_cons] at hlen
  exact ⟨hskip, hv, by omega, fun hz => h0 (hv.subset hz)⟩

/-- The end of a round: a comma and the other rounds, or the closing bracket. -/
theorem round_ok {α : Type} {x : α} {c close : UInt8} {u r : List UInt8} {l : List α} {g g' : ℕ}
    {loop : Scan (Parsed (List α))} {loop' : List UInt8 → Option (List α × List UInt8)} (ih : Refines u loop (loop' u))
    (h : (if c = 44 then do
        let ((l, g), t) ← loop
        .ok ((x :: l, g), t)
      else if c = close then .ok (([x], g), u)
      else .rejected) = Scan.ok ((l, g'), r)) :
    (match expect 44 (c :: u) with
      | some t => (loop' t).map fun p => (x :: p.1, p.2)
      | none => (expect close (c :: u)).map fun t => ([x], t)) = some (l, r) ∧ r <:+ u := by
  simp only [expect_eq]
  by_cases hcomma : c = 44
  · rw [if_pos hcomma, bind_eq_ok] at h
    obtain ⟨⟨⟨l, g⟩, t⟩, hrec, h⟩ := h
    cases h
    obtain ⟨hl, hr⟩ := ih _ _ _ hrec
    simp only [if_pos hcomma, hl]
    exact ⟨rfl, hr⟩
  · rw [if_neg hcomma] at h
    split_ifs at h with hclose
    cases h
    simp only [if_neg hcomma, if_pos hclose]
    exact ⟨rfl, List.suffix_rfl⟩

/-- The loop of `parse_array` on a text of fewer than `m` characters, with rounds for each of them. -/
theorem parseElements_ok (hv : ∀ g t, t.length < m → 0 ∉ t → Refines t (value g t) (value' t)) (k g : ℕ) :
    ∀ (n : ℕ) (t : List UInt8), t.length < m → t.length ≤ n → 0 ∉ t →
      Refines t (parseElements value k g t) (Json.parseElements value' n t) := by
  induction k generalizing g with
  | zero => intro n t _ _ _ a g' r h; cases h
  | succ k ih =>
    intro n t hm hn h0 l g' r h
    cases g with
    | zero => cases h
    | succ g =>
      simp only [parseElements, bind_eq_ok] at h
      obtain ⟨t₁, hskip, ⟨⟨v, g₁⟩, t₂⟩, hval, t₃, hskip', ⟨c, t₄⟩, hitem, h⟩ := h
      dsimp only at hskip' h
      obtain ⟨hs₁, ht₁, hne⟩ := skip_ok hskip h0
      have hlen₁ := ht₁.length_le
      have hpos := List.length_pos_iff.2 hne
      have h0₁ : 0 ∉ t₁ := fun hz => h0 (ht₁.subset hz)
      obtain ⟨hval, ht₂⟩ := hv g t₁ (by omega) h0₁ _ _ _ hval
      have hlen₂ := ht₂.length_le
      obtain ⟨hs₄, ht₄, hlen₄, h0₄⟩ := skip_item hskip' hitem fun hz => h0₁ (ht₂.subset hz)
      obtain ⟨n, rfl⟩ := Nat.exists_eq_succ_of_ne_zero (show n ≠ 0 by omega)
      have ht : t₄ <:+ t := ht₄.trans (ht₂.trans ht₁)
      obtain ⟨hround, hr⟩ := round_ok (ih g₁ n t₄ (by omega) (by omega) h0₄) h
      simp only [Json.parseElements, hs₁, hval, hs₄, Option.bind_eq_bind, Option.bind_some]
      exact ⟨hround, hr.trans ht⟩

/-- The loop of `parse_object`. -/
theorem parseMembers_ok (hv : ∀ g t, t.length < m → 0 ∉ t → Refines t (value g t) (value' t)) (k g : ℕ) :
    ∀ (n : ℕ) (t : List UInt8), t.length < m → t.length ≤ n → 0 ∉ t →
      Refines t (parseMembers value k g t) (Json.parseMembers value' n t) := by
  induction k generalizing g with
  | zero => intro n t _ _ _ a g' r h; cases h
  | succ k ih =>
    intro n t hm hn h0 l g' r h
    cases g with
    | zero => cases h
    | succ g =>
      simp only [parseMembers, bind_eq_ok] at h
      obtain ⟨t₁, hskip, ⟨⟨name, g₁⟩, t₂⟩, hname, t₃, hskip₂, ⟨c, t₄⟩, hitem, h⟩ := h
      dsimp only at hskip₂ h
      obtain ⟨hs₁, ht₁, hne⟩ := skip_ok hskip h0
      have hlen₁ := ht₁.length_le
      have hpos := List.length_pos_iff.2 hne
      have h0₁ : 0 ∉ t₁ := fun hz => h0 (ht₁.subset hz)
      obtain ⟨hname, ht₂⟩ := parseString_ok hname h0₁
      have hlen₂ := ht₂.length_le
      obtain ⟨hs₄, ht₄, hlen₄, h0₄⟩ := skip_item hskip₂ hitem fun hz => h0₁ (ht₂.subset hz)
      obtain ⟨n, rfl⟩ := Nat.exists_eq_succ_of_ne_zero (show n ≠ 0 by omega)
      by_cases hcolon : c = 58
      swap
      · rw [if_pos hcolon] at h
        cases h
      rw [if_neg (not_not.2 hcolon)] at h
      simp only [bind_eq_ok] at h
      obtain ⟨t₅, hskip₅, ⟨⟨v, g₂⟩, t₆⟩, hval, t₇, hskip₇, ⟨d, t₈⟩, hitem₈, h⟩ := h
      dsimp only at hskip₇ h
      obtain ⟨hs₅, ht₅, -⟩ := skip_ok hskip₅ h0₄
      have hlen₅ := ht₅.length_le
      have h0₅ : 0 ∉ t₅ := fun hz => h0₄ (ht₅.subset hz)
      obtain ⟨hval, ht₆⟩ := hv g₁ t₅ (by omega) h0₅ _ _ _ hval
      have hlen₆ := ht₆.length_le
      obtain ⟨hs₈, ht₈, hlen₈, h0₈⟩ := skip_item hskip₇ hitem₈ fun hz => h0₅ (ht₆.subset hz)
      have ht : t₈ <:+ t := ht₈.trans (ht₆.trans (ht₅.trans (ht₄.trans (ht₂.trans ht₁))))
      obtain ⟨hround, hr⟩ := round_ok (ih g₂ n t₈ (by omega) (by omega) h0₈) h
      have hexpect : expect 58 (c :: t₄) = some t₄ := if_pos hcolon
      simp only [Json.parseMembers, hs₁, hname, hs₄, hexpect, hs₅, hval, hs₈, Option.bind_eq_bind, Option.bind_some]
      exact ⟨hround, hr.trans ht⟩

end Loops

/-- A word, and what is tried when the text does not begin with it. -/
theorem word_ok {w t : List UInt8} {n g : ℕ} {v : Value} {x : Scan (Parsed Value)} {y : Option (Value × List UInt8)}
    (h : Refines t x y) :
    Refines t (do if ← startsWith w t then let t ← advance n t; .ok ((v, g), t) else x)
      (if w.isPrefixOf t then some (v, t.drop n) else y) := by
  intro a g' r hx
  rw [bind_eq_ok] at hx
  obtain ⟨found, hfound, hx⟩ := hx
  rw [startsWith_ok hfound]
  cases found with
  | true =>
    rw [if_pos rfl, bind_eq_ok] at hx
    obtain ⟨u, hu, hx⟩ := hx
    obtain ⟨-, rfl⟩ := advance_ok hu
    cases hx
    exact ⟨rfl, List.drop_suffix n t⟩
  | false => exact h a g' r hx

/-- Brackets with nothing between them, and with a list that `wrap` makes a value of. -/
theorem brackets_ok {α : Type} (wrap : List α → Value) (c : UInt8) {close : UInt8} {u : List UInt8} {g : ℕ}
    {loop : ℕ → List UInt8 → Scan (Parsed (List α))} (y : List UInt8 → Option (List α × List UInt8)) (h0 : 0 ∉ u)
    (h : ∀ t, t.length ≤ u.length → 0 ∉ t → Refines t (loop g t) (y t)) :
    Refines (c :: u) (brackets close wrap loop g u)
      (match expect close (Json.skip u) with
        | some u => some (wrap [], u)
        | none => (y (Json.skip u)).map fun p => (wrap p.1, p.2)) := by
  intro a g' r hx
  simp only [brackets, bind_eq_ok] at hx
  obtain ⟨u₁, hskip, ⟨d, t⟩, hitem, hx⟩ := hx
  obtain ⟨hs, ht, -, -⟩ := skip_item hskip hitem h0
  obtain ⟨-, hu, -⟩ := skip_ok hskip h0
  obtain rfl := item_ok hitem
  rw [hs, expect_eq]
  dsimp only at hx
  by_cases hclose : d = close
  · rw [if_pos hclose] at hx
    cases hx
    rw [if_pos hclose]
    exact ⟨rfl, ht.trans (List.suffix_cons c u)⟩
  · rw [if_neg hclose, bind_eq_ok] at hx
    obtain ⟨⟨⟨l, g₁⟩, t₂⟩, hl, hx⟩ := hx
    cases hx
    obtain ⟨hy, hr⟩ := h _ hu.length_le (fun hz => h0 (hu.subset hz)) _ _ _ hl
    simp only [if_neg hclose, hy]
    exact ⟨rfl, hr.trans (hu.trans (List.suffix_cons c u))⟩

/-- **A value in a block is the value in the text.** -/
theorem parseValue_ok (n g : ℕ) :
    ∀ (m : ℕ) (t : List UInt8), t.length < m → 0 ∉ t → Refines t (parseValue n g t) (Json.parseValue m t) := by
  induction n generalizing g with
  | zero => intro m t _ _ a g' r h; cases h
  | succ n ih =>
    intro m t hm h0
    obtain ⟨m, rfl⟩ := Nat.exists_eq_succ_of_ne_zero (show m ≠ 0 by omega)
    simp only [parseValue, Json.parseValue]
    refine word_ok (word_ok (word_ok ?_))
    cases t with
    | nil => intro a g' r h; cases h
    | cons c u =>
      rw [List.length_cons] at hm
      have hu0 : 0 ∉ u := fun hz => h0 (List.mem_cons_of_mem c hz)
      have hv : ∀ g t, t.length < m → 0 ∉ t → Refines t (parseValue n g t) (Json.parseValue m t) :=
        fun g t => ih g m t
      simp only [item_cons, ok_bind]
      split_ifs with hquote hnum hlist hobj
      · intro v g' r h
        rw [bind_eq_ok] at h
        obtain ⟨⟨⟨s, g₁⟩, t⟩, hs, h⟩ := h
        cases h
        obtain ⟨hs, hr⟩ := parseString_ok hs h0
        rw [hs]
        exact ⟨rfl, hr⟩
      · intro v g' r h
        rw [bind_eq_ok] at h
        obtain ⟨⟨chars, t⟩, hchars, h⟩ := h
        cases h
        obtain ⟨hchars, hr⟩ := parseNumber_ok hchars
        rw [hchars]
        exact ⟨rfl, hr⟩
      · exact brackets_ok .array c (Json.parseElements (Json.parseValue m) u.length) hu0 fun t hlen ht0 =>
          parseElements_ok hv g g u.length t (by omega) hlen ht0
      · exact brackets_ok .object c (Json.parseMembers (Json.parseValue m) u.length) hu0 fun t hlen ht0 =>
          parseMembers_ok hv g g u.length t (by omega) hlen ht0
      · intro v g' r h
        cases h

/-- **What the parser makes of a block is what it makes of the text**, where the block has no NUL. -/
theorem cJSONParse_text {g : ℕ} {t : List UInt8} {v : Value} (h : cJSONParse g t = .ok v) (h0 : 0 ∉ t) :
    Json.cJSONParse t = some v := by
  cases g with
  | zero => cases h
  | succ g =>
    simp only [cJSONParse, bind_eq_ok] at h
    obtain ⟨u, hskip, ⟨⟨v', g'⟩, r⟩, hv, h⟩ := h
    cases h
    obtain ⟨hs, hu, -⟩ := skip_ok hskip h0
    have hlen := hu.length_le
    obtain ⟨hv, -⟩ := parseValue_ok _ _ (t.length + 1) u (by omega) (fun hz => h0 (hu.subset hz)) _ _ _ hv
    rw [Json.cJSONParse, hs, hv]
    rfl

end W601.Json.Bounded
