import W601.Web.Settings

/-!
# The parameters of a request (`wn_request.c`, `wn_utils.c`)

A form is sent as `name=value&name=value`, with bytes that are special behind a `%`. The server decodes it where it lies: at
every `=` it decodes all that is behind, and only then looks for the end of the value.

* `urldecode`, `parseQuery`: the code.
* `form_items_iff`: **which forms are read as they were sent.**
-/

namespace W601.Query

open CMem
open Settings (QueryItem)

/-! ## The code -/

def isxdigit (c : UInt8) : Bool := (48 ≤ c && c ≤ 57) || (65 ≤ c && c ≤ 70) || (97 ≤ c && c ≤ 102)

/-- The value of a digit, behind `tolower`. -/
def hexValue (c : UInt8) : UInt8 :=
  let c := if 65 ≤ c ∧ c ≤ 90 then c + 32 else c
  if 48 ≤ c ∧ c ≤ 57 then c - 48 else c - 97 + 10

/-- `urldecode`. -/
def urldecode : List UInt8 → List UInt8
  | c :: a :: b :: t =>
    if c = 43 then 32 :: urldecode (a :: b :: t)
    else if c = 37 ∧ isxdigit a ∧ isxdigit b then (hexValue a * 16 + hexValue b) :: urldecode t
    else c :: urldecode (a :: b :: t)
  | c :: t => (if c = 43 then 32 else c) :: urldecode t
  | [] => []

/-- A C string ends at its first zero. -/
def cut (s : List UInt8) : List UInt8 := s.takeWhile (· ≠ 0)

/-- Up to `&`, `=` or the end. -/
def segment (s : List UInt8) : List UInt8 × List UInt8 := s.span fun c => c ≠ 38 ∧ c ≠ 61

/-- The value of an item and what is behind it, from an `=` on; every further `=` begins the value anew. -/
def itemValue : ℕ → List UInt8 → List UInt8 × List UInt8
  | 0, s => ([], s)
  | fuel + 1, s =>
    match segment (cut (urldecode s)) with
    | (_, 61 :: t) => itemValue fuel t
    | (value, rest) => (value, rest)

theorem itemValue_nulFree : ∀ (fuel : ℕ) (s : List UInt8), 0 ∉ (itemValue fuel s).1
  | 0, _ => List.not_mem_nil
  | fuel + 1, s => by
    rw [itemValue]
    split
    · exact itemValue_nulFree fuel _
    · rename_i heq
      intro h
      have hseg : (segment (cut (urldecode s))).1 <+: cut (urldecode s) := by
        rw [segment, List.span_eq_takeWhile_dropWhile]
        exact List.takeWhile_prefix _
      rw [heq] at hseg
      have hcut := List.mem_takeWhile_imp (hseg.subset h)
      simp at hcut

/-- The item that begins the text, and what is behind it. -/
def parseItem (s : List UInt8) : QueryItem × List UInt8 :=
  match segment s with
  | (name, 61 :: t) => (⟨name, some (itemValue (t.length + 1) t).1, fun v hv => by
      obtain rfl := Option.some.inj hv
      exact itemValue_nulFree _ _⟩, (itemValue (t.length + 1) t).2)
  | (name, rest) => (⟨name, none, fun v hv => by cases hv⟩, rest)

/-- The items, `query_counter` at most. -/
def parseItems : ℕ → List UInt8 → List QueryItem
  | 0, _ => []
  | counter + 1, s =>
    (parseItem s).1 :: match (parseItem s).2 with
      | 38 :: t =>
        match t.dropWhile (· = 38) with
        | [] => []
        | c :: t => parseItems counter (c :: t)
      | _ => []

/-- `query_counter` goes up where `&`, one or more, stand in front of another byte. -/
def countAmps : Bool → List UInt8 → ℕ
  | _, [] => 0
  | amp, c :: t => if c = 38 then countAmps true t else (if amp then 1 else 0) + countAmps false t

def queryCounter (s : List UInt8) : ℕ := 1 + countAmps false s

/-- `_webnet_request_parse_query`: the items that are filled in. -/
def parseQuery (query : List UInt8) : List QueryItem :=
  if query = [] then [] else parseItems (queryCounter query) query

/-! ## Decoding -/

section Decode

variable {c : UInt8} {s t : List UInt8}

/-- The two digits that stand in front. -/
def escaped : List UInt8 → Option UInt8
  | a :: b :: _ => if isxdigit a ∧ isxdigit b then some (hexValue a * 16 + hexValue b) else none
  | _ => none

/-- One byte, or three. -/
theorem urldecode_cons (c : UInt8) (t : List UInt8) : urldecode (c :: t) =
    if c = 43 then 32 :: urldecode t
    else match if c = 37 then escaped t else none with
      | some v => v :: urldecode (t.drop 2)
      | none => c :: urldecode t := by
  match t with
  | [] =>
    rw [urldecode]
    · split_ifs <;> rfl
    · intros; simp_all
  | [a] =>
    rw [urldecode]
    · split_ifs <;> rfl
    · intros; simp_all
  | a :: b :: t =>
    rw [urldecode]
    by_cases hplus : c = 43
    · rw [if_pos hplus, if_pos hplus]
    · rw [if_neg hplus, if_neg hplus]
      by_cases hpercent : c = 37
      · simp only [hpercent, true_and, if_true, escaped]
        split_ifs <;> rfl
      · simp only [hpercent, false_and, if_false]

/-- What stands behind a text that is not a digit does not touch it. -/
theorem escaped_append (ht : ∀ x ∈ t.head?, isxdigit x = false) : escaped (s ++ t) = escaped s := by
  match s with
  | [] =>
    match t with
    | [] => rfl
    | [x] => rfl
    | x :: y :: t =>
      have hx : isxdigit x = false := ht x rfl
      rw [List.nil_append, escaped, hx]
      simp [escaped]
  | [a] =>
    match t with
    | [] => rfl
    | x :: t =>
      have hx : isxdigit x = false := ht x rfl
      rw [List.singleton_append, escaped, hx]
      simp [escaped]
  | a :: b :: s => rfl

theorem escaped_some {v : UInt8} (h : escaped s = some v) : ∃ a b r, s = a :: b :: r ∧ isxdigit a = true ∧ isxdigit b = true := by
  match s with
  | [] => cases h
  | [a] => cases h
  | a :: b :: r =>
    rw [escaped] at h
    split_ifs at h with hhex
    exact ⟨a, b, r, rfl, hhex⟩

theorem urldecode_append (ht : ∀ x ∈ t.head?, isxdigit x = false) : urldecode (s ++ t) = urldecode s ++ urldecode t := by
  induction hn : s.length using Nat.strong_induction_on generalizing s with
  | _ n ih =>
    match s with
    | [] => rfl
    | c :: s =>
      have hshort : ∀ k, (s.drop k).length < n := fun k => by
        rw [← hn, List.length_drop, List.length_cons]
        omega
      have hrest := fun k => ih _ (hshort k) rfl
      have h0 := hrest 0
      rw [List.drop_zero] at h0
      rw [List.cons_append, urldecode_cons, urldecode_cons, escaped_append ht]
      by_cases hplus : c = 43
      · rw [if_pos hplus, if_pos hplus, h0, List.cons_append]
      · rw [if_neg hplus, if_neg hplus]
        by_cases hpercent : c = 37
        · rw [if_pos hpercent]
          cases hesc : escaped s with
          | none =>
            simp only
            rw [h0, List.cons_append]
          | some v =>
            obtain ⟨a, b, r, rfl, -⟩ := escaped_some hesc
            have h2 := hrest 2
            simp only [List.cons_append, List.drop_succ_cons, List.drop_zero] at h2 ⊢
            rw [h2]
        · rw [if_neg hpercent]
          simp only
          rw [h0, List.cons_append]

/-- A byte that is not special stays. -/
theorem urldecode_plain (hplus : c ≠ 43) (hpercent : c ≠ 37) : urldecode (c :: t) = c :: urldecode t := by
  rw [urldecode_cons, if_neg hplus, if_neg hpercent]

/-- What decoding makes less. -/
def weight (s : List UInt8) : ℕ := s.length + s.count 43

theorem weight_cons (c : UInt8) (s : List UInt8) : weight (c :: s) = weight s + 1 + if c = 43 then 1 else 0 := by
  rw [weight, weight, List.length_cons, List.count_cons]
  simp only [beq_iff_eq]
  omega

theorem weight_append (s t : List UInt8) : weight (s ++ t) = weight s + weight t := by
  rw [weight, weight, weight, List.length_append, List.count_append]
  omega

/-- **Decoding** changes nothing or makes the text less. -/
theorem urldecode_fixed_or (s : List UInt8) : urldecode s = s ∨ weight (urldecode s) < weight s := by
  induction hn : s.length using Nat.strong_induction_on generalizing s with
  | _ n ih =>
    match s with
    | [] => exact Or.inl rfl
    | c :: s =>
      have hrest : urldecode s = s ∨ weight (urldecode s) < weight s := ih s.length (by rw [← hn]; exact Nat.lt_succ_self _) s rfl
      have hle : weight (urldecode s) ≤ weight s := by
        rcases hrest with h | h
        · rw [h]
        · exact h.le
      have hkeep : c ≠ 43 → c :: urldecode s = c :: s ∨ weight (c :: urldecode s) < weight (c :: s) := by
        intro hc
        rw [weight_cons, weight_cons, if_neg hc]
        rcases hrest with h | h
        · exact Or.inl (by rw [h])
        · exact Or.inr (by omega)
      rw [urldecode_cons]
      by_cases hplus : c = 43
      · rw [if_pos hplus, weight_cons, weight_cons, if_pos hplus, if_neg (by decide)]
        exact Or.inr (by omega)
      · rw [if_neg hplus]
        by_cases hpercent : c = 37
        · rw [if_pos hpercent]
          cases hesc : escaped s with
          | none => exact hkeep hplus
          | some v =>
            obtain ⟨a, b, r, rfl, -⟩ := escaped_some hesc
            have hr : urldecode r = r ∨ weight (urldecode r) < weight r := ih r.length (by
              rw [← hn, List.length_cons, List.length_cons, List.length_cons]
              omega) r rfl
            have hle' : weight (urldecode r) ≤ weight r := by
              rcases hr with h | h
              · rw [h]
              · exact h.le
            right
            simp only [List.drop_succ_cons, List.drop_zero]
            rw [weight_cons, weight_cons, weight_cons, weight_cons]
            split_ifs <;> omega
        · rw [if_neg hpercent]
          exact hkeep hplus

theorem weight_urldecode_le (s : List UInt8) : weight (urldecode s) ≤ weight s := by
  rcases urldecode_fixed_or s with h | h
  · rw [h]
  · exact h.le

theorem weight_iterate_le (k : ℕ) (s : List UInt8) : weight (urldecode^[k] s) ≤ weight s := by
  induction k with
  | zero => exact le_rfl
  | succ k ih =>
    rw [Function.iterate_succ_apply']
    exact (weight_urldecode_le _).trans ih

/-- A text that decoding again and again gives back is not changed by it at all. -/
theorem iterate_fixed_iff (k : ℕ) (s : List UInt8) : urldecode^[k] s = s ↔ k = 0 ∨ urldecode s = s := by
  cases k with
  | zero => exact iff_of_true rfl (Or.inl rfl)
  | succ k =>
    constructor
    · intro h
      refine Or.inr ((urldecode_fixed_or s).resolve_right fun hlt => ?_)
      have hle := weight_iterate_le k (urldecode s)
      rw [← Function.iterate_succ_apply, h] at hle
      omega
    · rintro (h | h)
      · cases h
      · exact Function.iterate_fixed h (k + 1)

end Decode

/-! ## A value -/

/-- Neither the end of a text nor of an item or a name. -/
def Clean (s : List UInt8) : Prop := ∀ c ∈ s, c ≠ 0 ∧ c ≠ 38 ∧ c ≠ 61

instance (s : List UInt8) : Decidable (Clean s) := inferInstanceAs (Decidable (∀ _ ∈ _, _))

/-- Nothing, or the next item behind an `&`. -/
def Sep (t : List UInt8) : Prop := t = [] ∨ ∃ r, t = 38 :: r

section Value

variable {s t : List UInt8}

theorem cut_zero (s t : List UInt8) : cut (s ++ 0 :: t) = cut s := by
  induction s with
  | nil => rfl
  | cons c s ih =>
    rw [cut, cut, List.cons_append, List.takeWhile_cons, List.takeWhile_cons]
    split_ifs
    · exact congrArg _ ih
    · rfl

theorem cut_append (h : 0 ∉ s) (t : List UInt8) : cut (s ++ t) = s ++ cut t := by
  refine List.takeWhile_append_of_pos fun c hc => decide_eq_true ?_
  rintro rfl
  exact h hc

/-- What is behind the end of a text is not decoded, and what is in front does not depend on it. -/
theorem cut_urldecode_cut (s : List UInt8) : cut (urldecode (cut s)) = cut (urldecode s) := by
  by_cases h : 0 ∈ s
  · obtain ⟨a, b, rfl, ha⟩ := List.eq_append_cons_of_mem h
    have hfront : cut (a ++ 0 :: b) = a := by
      rw [cut_zero]
      simpa [cut] using cut_append ha []
    have hzero : ∀ x ∈ (0 :: b).head?, isxdigit x = false := by
      intro x hx
      obtain rfl := Option.some.inj hx
      rfl
    rw [hfront, urldecode_append hzero, urldecode_plain (by decide) (by decide), cut_zero]
  · have hall : cut s = s := by simpa [cut] using cut_append h []
    rw [hall]

theorem segment_append (hs : ∀ c ∈ s, c ≠ 38 ∧ c ≠ 61) (ht : ∀ x ∈ t.head?, x = 38 ∨ x = 61) : segment (s ++ t) = (s, t) := by
  have hstop : t.takeWhile (fun c => decide (c ≠ 38 ∧ c ≠ 61)) = [] := by
    cases t with
    | nil => rfl
    | cons x t =>
      rw [List.takeWhile_cons_of_neg]
      rcases ht x rfl with rfl | rfl <;> decide
  have hrest : t.dropWhile (fun c => decide (c ≠ 38 ∧ c ≠ 61)) = t := by
    have hglue := List.takeWhile_append_dropWhile (p := fun c => decide (c ≠ 38 ∧ c ≠ 61)) (l := t)
    rwa [hstop, List.nil_append] at hglue
  have hpos : ∀ c ∈ s, decide (c ≠ 38 ∧ c ≠ 61) = true := fun c hc => decide_eq_true (hs c hc)
  rw [segment, List.span_eq_takeWhile_dropWhile, List.takeWhile_append_of_pos hpos, List.dropWhile_append_of_pos hpos, hstop,
    hrest, List.append_nil]

theorem segment_stop (hs : ∀ c ∈ s, c ≠ 38 ∧ c ≠ 61) {c : UInt8} (hc : c = 38 ∨ c = 61) (t : List UInt8) :
    segment (s ++ c :: t) = (s, c :: t) := by
  refine segment_append hs fun x hx => ?_
  obtain rfl := Option.some.inj hx
  exact hc

theorem Sep.head (h : Sep t) : ∀ x ∈ t.head?, x = 38 := by
  rcases h with rfl | ⟨r, rfl⟩
  · intro x hx
    cases hx
  · intro x hx
    exact (Option.some.inj hx).symm

theorem Sep.notHex (h : Sep t) : ∀ x ∈ t.head?, isxdigit x = false := by
  intro x hx
  rw [h.head x hx]
  rfl

theorem Sep.urldecode (h : Sep t) : Sep (urldecode t) := by
  rcases h with rfl | ⟨r, rfl⟩
  · exact Or.inl rfl
  · exact Or.inr ⟨_, urldecode_plain (by decide) (by decide)⟩

theorem Sep.cut (h : Sep t) : Sep (cut t) := by
  rcases h with rfl | ⟨r, rfl⟩
  · exact Or.inl rfl
  · exact Or.inr ⟨Query.cut r, rfl⟩

/-- The first byte that is not clean. -/
theorem exists_of_not_clean : ∀ {s : List UInt8}, ¬ Clean s → ∃ a b r, s = a ++ b :: r ∧ Clean a ∧ (b = 0 ∨ b = 38 ∨ b = 61)
  | [], h => absurd (by simp [Clean]) h
  | c :: s, h => by
    by_cases hc : c = 0 ∨ c = 38 ∨ c = 61
    · exact ⟨[], c, s, rfl, by simp [Clean], hc⟩
    · have hs : ¬ Clean s := fun hs => h fun x hx => by
        rcases List.mem_cons.1 hx with rfl | hx
        · exact ⟨fun h => hc (Or.inl h), fun h => hc (Or.inr (Or.inl h)), fun h => hc (Or.inr (Or.inr h))⟩
        · exact hs x hx
      obtain ⟨a, b, r, rfl, ha, hb⟩ := exists_of_not_clean hs
      refine ⟨c :: a, b, r, rfl, fun x hx => ?_, hb⟩
      rcases List.mem_cons.1 hx with rfl | hx
      · exact ⟨fun h => hc (Or.inl h), fun h => hc (Or.inr (Or.inl h)), fun h => hc (Or.inr (Or.inr h))⟩
      · exact ha x hx

theorem Clean.nulFree (h : Clean s) : 0 ∉ s := fun hmem => (h 0 hmem).1 rfl

theorem Clean.segment (h : Clean s) : ∀ c ∈ s, c ≠ 38 ∧ c ≠ 61 := fun c hc => (h c hc).2

/-- One turn, when what comes of the next one is bounded. -/
theorem itemValue_step {fuel : ℕ} (hnext : ∀ (r : List UInt8) {t : List UInt8}, Sep t →
      weight (itemValue fuel (cut (r ++ t))).1 ≤ weight r) (s : List UInt8) (ht : Sep t) :
    (Clean (urldecode s) → itemValue (fuel + 1) (cut (s ++ t)) = (urldecode s, cut (urldecode t))) ∧
      (¬ Clean (urldecode s) → weight (itemValue (fuel + 1) (cut (s ++ t))).1 < weight (urldecode s)) := by
  have hdecode : cut (urldecode (cut (s ++ t))) = cut (urldecode s ++ urldecode t) := by
    rw [cut_urldecode_cut, urldecode_append ht.notHex]
  have hsep := ht.urldecode
  constructor
  · intro hclean
    have hcut : cut (urldecode s ++ urldecode t) = urldecode s ++ cut (urldecode t) := cut_append hclean.nulFree _
    rw [itemValue, hdecode, hcut, segment_append hclean.segment fun x hx => Or.inl (hsep.cut.head x hx)]
    rcases hsep.cut with hnil | ⟨r, hr⟩
    · rw [hnil]
    · rw [hr]
      split
      · rename_i heq
        cases (Prod.mk.inj heq).2
      · rename_i heq
        exact heq.symm
  · intro hdirty
    obtain ⟨a, b, r, hsplit, ha, hb⟩ := exists_of_not_clean hdirty
    have hweight : weight (urldecode s) = weight a + weight r + 1 + if b = 43 then 1 else 0 := by
      rw [hsplit, weight_append, weight_cons]
      omega
    rw [itemValue, hdecode, hsplit, List.append_assoc, List.cons_append]
    rcases hb with rfl | rfl | rfl
    · -- the text ends
      have hend : segment (cut (a ++ 0 :: (r ++ urldecode t))) = (a, []) := by
        have hcut : cut (a ++ 0 :: (r ++ urldecode t)) = a ++ [] := cut_append ha.nulFree _
        rw [hcut, segment_append ha.segment fun x hx => by cases hx]
      rw [hend, ← hsplit]
      change weight a < weight (urldecode s)
      omega
    · -- the item ends
      have hend : segment (cut (a ++ 38 :: (r ++ urldecode t))) = (a, 38 :: cut (r ++ urldecode t)) := by
        have hcut : cut (a ++ 38 :: (r ++ urldecode t)) = a ++ 38 :: cut (r ++ urldecode t) := cut_append ha.nulFree _
        rw [hcut, segment_stop ha.segment (Or.inl rfl)]
      rw [hend, ← hsplit]
      change weight a < weight (urldecode s)
      omega
    · -- the value begins anew
      have hend : segment (cut (a ++ 61 :: (r ++ urldecode t))) = (a, 61 :: cut (r ++ urldecode t)) := by
        have hcut : cut (a ++ 61 :: (r ++ urldecode t)) = a ++ 61 :: cut (r ++ urldecode t) := cut_append ha.nulFree _
        rw [hcut, segment_stop ha.segment (Or.inr rfl)]
      have hle := hnext r hsep
      rw [hend, ← hsplit]
      simp only
      omega

theorem itemValue_le : ∀ (fuel : ℕ) (s : List UInt8) {t : List UInt8}, Sep t → weight (itemValue fuel (cut (s ++ t))).1 ≤ weight s
  | 0, _, _, _ => Nat.zero_le _
  | fuel + 1, s, t, ht => by
    have hle := weight_urldecode_le s
    obtain ⟨hclean, hdirty⟩ := itemValue_step (itemValue_le fuel) s ht
    by_cases h : Clean (urldecode s)
    · rw [hclean h]
      exact hle
    · exact (hdirty h).le.trans hle

/-- **The value of an item** is what is decoded if that is clean, and else something less. -/
theorem itemValue_cases (fuel : ℕ) (s : List UInt8) (ht : Sep t) :
    (Clean (urldecode s) → itemValue (fuel + 1) (cut (s ++ t)) = (urldecode s, cut (urldecode t))) ∧
      (¬ Clean (urldecode s) → weight (itemValue (fuel + 1) (cut (s ++ t))).1 < weight (urldecode s)) :=
  itemValue_step (itemValue_le fuel) s ht

end Value

/-! ## A form -/

/-- A field of a form, as it is sent: a name, and a value whose special bytes are escaped. -/
structure Field where
  name : List UInt8
  code : List UInt8
  name_ne : name ≠ []
  name_plain : ∀ c ∈ name, c ∉ [0, 37, 38, 43, 61]
  code_plain : Clean code

/-- The value that was escaped. -/
def Field.value (f : Field) : List UInt8 := urldecode f.code

def Field.bytes (f : Field) : List UInt8 := f.name ++ 61 :: f.code

/-- The fields on the wire. -/
def formBody (fields : List Field) : List UInt8 := [38].intercalate (fields.map Field.bytes)

/-- What is read of an item. -/
def itemPair (q : QueryItem) : List UInt8 × Option (List UInt8) := (q.name, q.value)

/-- What has been sent. -/
def Field.pair (f : Field) : List UInt8 × Option (List UInt8) := (f.name, some f.value)

/-- The fields, decoded `k` times, each behind an `&`. -/
def tailOf (k : ℕ) : List Field → List UInt8
  | [] => []
  | f :: fs => 38 :: (f.name ++ 61 :: (urldecode^[k] f.code ++ tailOf k fs))

/-- The value of a field that has been decoded `k` times before its turn comes. -/
def Good (k : ℕ) (f : Field) : Prop := Clean f.value ∧ (k = 0 ∨ urldecode f.value = f.value)

def AllGood : ℕ → List Field → Prop
  | _, [] => True
  | k, f :: fs => Good k f ∧ AllGood (k + 1) fs

section Form

variable {f : Field} {fs : List Field} {k : ℕ}

theorem sep_tailOf (k : ℕ) : ∀ fs : List Field, Sep (tailOf k fs)
  | [] => Or.inl rfl
  | _ :: _ => Or.inr ⟨_, rfl⟩

theorem formBody_cons (f : Field) : ∀ fs : List Field, formBody (f :: fs) = f.name ++ 61 :: (f.code ++ tailOf 0 fs)
  | [] => by simp [formBody, Field.bytes, tailOf]
  | g :: fs => by
    have hrest := formBody_cons g fs
    rw [formBody, List.map_cons, List.map_cons, List.intercalate_cons_cons, ← List.map_cons, ← formBody, hrest]
    simp [Field.bytes, tailOf]

/-- A name is not changed. -/
theorem urldecode_name : ∀ {s : List UInt8}, (∀ c ∈ s, c ∉ [0, 37, 38, 43, 61]) → ∀ t, urldecode (s ++ t) = s ++ urldecode t
  | [], _, _ => rfl
  | c :: s, h, t => by
    have hc := h c List.mem_cons_self
    simp only [List.mem_cons, List.not_mem_nil, or_false, not_or] at hc
    rw [List.cons_append, urldecode_plain hc.2.2.2.1 hc.2.1, urldecode_name (fun x hx => h x (List.mem_cons_of_mem c hx)) t]
    rfl

theorem urldecode_tailOf (k : ℕ) : ∀ fs : List Field, urldecode (tailOf k fs) = tailOf (k + 1) fs
  | [] => rfl
  | f :: fs => by
    have hrest := urldecode_tailOf k fs
    rw [tailOf, urldecode_plain (by decide) (by decide), urldecode_name f.name_plain, urldecode_plain (by decide) (by decide),
      urldecode_append (sep_tailOf k fs).notHex, hrest, ← Function.iterate_succ_apply' urldecode]
    rfl

/-- What has been decoded once more is the value, decoded as often as before. -/
theorem iterate_code (k : ℕ) (f : Field) : urldecode (urldecode^[k] f.code) = urldecode^[k] f.value := by
  rw [← Function.iterate_succ_apply' urldecode, Function.iterate_succ_apply, Field.value]

theorem good_iff : Good k f ↔ Clean (urldecode^[k] f.value) ∧ urldecode^[k] f.value = f.value := by
  rw [Good, iterate_fixed_iff]
  constructor
  · rintro ⟨hclean, hfix⟩
    have hsame := (iterate_fixed_iff k f.value).2 hfix
    rw [hsame]
    exact ⟨hclean, hfix⟩
  · rintro ⟨hclean, hfix⟩
    rw [(iterate_fixed_iff k f.value).2 hfix] at hclean
    exact ⟨hclean, hfix⟩

/-- The text of a field, cut off at its end. -/
theorem cut_field (f : Field) (t : List UInt8) : cut (f.name ++ 61 :: t) = f.name ++ 61 :: cut t := by
  have hfree : 0 ∉ f.name := fun h => f.name_plain 0 h (by decide)
  exact cut_append hfree _

/-- The item of a field, and what is behind it. -/
theorem parseItem_field (f : Field) (s : List UInt8) : itemPair (parseItem (cut (f.name ++ 61 :: s))).1 =
      (f.name, some (itemValue ((cut s).length + 1) (cut s)).1) ∧
    (parseItem (cut (f.name ++ 61 :: s))).2 = (itemValue ((cut s).length + 1) (cut s)).2 := by
  have hplain : ∀ c ∈ f.name, c ≠ 38 ∧ c ≠ 61 := by
    intro c hc
    have hname := f.name_plain c hc
    simp only [List.mem_cons, List.not_mem_nil, or_false, not_or] at hname
    exact ⟨hname.2.2.1, hname.2.2.2.2⟩
  have hseg : segment (cut (f.name ++ 61 :: s)) = (f.name, 61 :: cut s) := by
    rw [cut_field, segment_stop hplain (Or.inr rfl)]
  rw [parseItem, hseg]
  exact ⟨rfl, rfl⟩

/-- **The first field**: its value is read as it was sent if and only if it is good for its place, and then what is behind it is
left, decoded once more. -/
theorem parseItem_good (k : ℕ) (f : Field) (fs : List Field) :
    let p := parseItem (cut (f.name ++ 61 :: (urldecode^[k] f.code ++ tailOf k fs)))
    (itemPair p.1 = f.pair ↔ Good k f) ∧ (Good k f → p.2 = cut (tailOf (k + 1) fs)) := by
  obtain ⟨hpair, hrest⟩ := parseItem_field f (urldecode^[k] f.code ++ tailOf k fs)
  obtain ⟨hclean, hdirty⟩ := itemValue_cases (cut (urldecode^[k] f.code ++ tailOf k fs)).length (urldecode^[k] f.code)
    (sep_tailOf k fs)
  rw [iterate_code] at hclean hdirty
  rw [urldecode_tailOf] at hclean
  have hvalue : ∀ v : List UInt8, (f.name, some v) = f.pair ↔ v = f.value := fun v => by
    rw [Field.pair, Prod.mk.injEq, Option.some.injEq]
    exact and_iff_right rfl
  simp only [hpair, hrest, hvalue]
  by_cases h : Clean (urldecode^[k] f.value)
  · rw [hclean h, good_iff]
    exact ⟨(and_iff_right h).symm, fun _ => rfl⟩
  · have hless := hdirty h
    have hle := weight_iterate_le k f.value
    have hbad : ¬ Good k f := fun hgood => h (good_iff.1 hgood).1
    refine ⟨iff_of_false (fun heq => ?_) hbad, fun hgood => absurd hgood hbad⟩
    rw [heq] at hless
    omega

/-- **Some fields are read as they were sent** if and only if each is good for its place. -/
theorem parseItems_iff : ∀ {fs : List Field} {f : Field} {k counter : ℕ}, fs.length < counter →
    ((parseItems counter (cut (f.name ++ 61 :: (urldecode^[k] f.code ++ tailOf k fs)))).map itemPair = (f :: fs).map Field.pair ↔
      AllGood k (f :: fs)) := by
  intro fs
  induction fs with
  | nil =>
    intro f k counter hcounter
    obtain ⟨counter, rfl⟩ := Nat.exists_eq_succ_of_ne_zero (Nat.ne_of_gt hcounter)
    obtain ⟨hpair, hrest⟩ := parseItem_good k f []
    rw [parseItems, List.map_cons, List.map_cons, List.cons.injEq, hpair, AllGood, AllGood]
    refine and_congr_right fun hgood => ?_
    rw [hrest hgood]
    exact iff_of_true rfl trivial
  | cons g fs ih =>
    intro f k counter hcounter
    obtain ⟨counter, rfl⟩ := Nat.exists_eq_succ_of_ne_zero (Nat.ne_zero_of_lt hcounter)
    obtain ⟨hpair, hrest⟩ := parseItem_good k f (g :: fs)
    rw [parseItems, List.map_cons, List.map_cons, List.cons.injEq, hpair, AllGood]
    refine and_congr_right fun hgood => ?_
    have hnext : cut (tailOf (k + 1) (g :: fs)) =
        38 :: cut (g.name ++ 61 :: (urldecode^[k + 1] g.code ++ tailOf (k + 1) fs)) := rfl
    have hfront : ∃ c r, cut (g.name ++ 61 :: (urldecode^[k + 1] g.code ++ tailOf (k + 1) fs)) = c :: r ∧ c ≠ 38 := by
      obtain ⟨c, r, hname⟩ := List.exists_cons_of_ne_nil g.name_ne
      have hc := g.name_plain c (by rw [hname]; exact List.mem_cons_self)
      simp only [List.mem_cons, List.not_mem_nil, or_false, not_or] at hc
      rw [cut_field, hname]
      exact ⟨c, _, rfl, hc.2.2.1⟩
    obtain ⟨c, r, hcr, hc⟩ := hfront
    have hskip : (c :: r).dropWhile (· = 38) = c :: r := List.dropWhile_cons_of_neg (by simpa using hc)
    rw [hrest hgood, hnext, hcr]
    simp only [hskip]
    rw [← hcr]
    exact ih (Nat.lt_of_succ_lt_succ hcounter)

theorem countAmps_plain : ∀ {s : List UInt8} (amp : Bool) (t : List UInt8), (∀ c ∈ s, c ≠ 38) → s ≠ [] →
    countAmps amp (s ++ t) = (if amp then 1 else 0) + countAmps false t
  | [], _, _, _, h => absurd rfl h
  | [c], amp, t, hs, _ => by
    rw [List.singleton_append, countAmps, if_neg (hs c List.mem_cons_self)]
  | c :: d :: s, amp, t, hs, _ => by
    have hrest := countAmps_plain (s := d :: s) false t (fun x hx => hs x (List.mem_cons_of_mem c hx)) (List.cons_ne_nil _ _)
    rw [List.cons_append, countAmps, if_neg (hs c List.mem_cons_self), hrest]
    simp

/-- A field on the wire has neither an `&` nor a zero. -/
theorem Field.bytes_plain (f : Field) : ∀ c ∈ f.bytes, c ≠ 38 ∧ c ≠ 0 := by
  intro c hc
  rcases List.mem_append.1 hc with hname | hcode
  · have hplain := f.name_plain c hname
    simp only [List.mem_cons, List.not_mem_nil, or_false, not_or] at hplain
    exact ⟨hplain.2.2.1, hplain.1⟩
  · rcases List.mem_cons.1 hcode with rfl | hcode
    · decide
    · exact ⟨(f.code_plain c hcode).2.1, (f.code_plain c hcode).1⟩

theorem Field.bytes_ne (f : Field) : f.bytes ≠ [] := by simp [Field.bytes]

theorem tailOf_cons (f : Field) (fs : List Field) : tailOf 0 (f :: fs) = 38 :: (f.bytes ++ tailOf 0 fs) := by
  simp [tailOf, Field.bytes]

theorem countAmps_tailOf : ∀ fs : List Field, countAmps false (tailOf 0 fs) = fs.length
  | [] => rfl
  | f :: fs => by
    rw [tailOf_cons, countAmps, if_pos rfl, countAmps_plain true _ (fun c hc => (f.bytes_plain c hc).1) f.bytes_ne,
      countAmps_tailOf fs, List.length_cons]
    simp [Nat.add_comm]

theorem nulFree_tailOf : ∀ fs : List Field, 0 ∉ tailOf 0 fs
  | [] => List.not_mem_nil
  | f :: fs => by
    rw [tailOf_cons, List.mem_cons, List.mem_append, not_or, not_or]
    exact ⟨by decide, fun h => (f.bytes_plain 0 h).2 rfl, nulFree_tailOf fs⟩

theorem allGood_iff (k : ℕ) : ∀ fs : List Field, AllGood (k + 1) fs ↔ ∀ f ∈ fs, Clean f.value ∧ urldecode f.value = f.value
  | [] => iff_of_true trivial (by simp)
  | f :: fs => by
    rw [AllGood, allGood_iff (k + 1) fs, Good, List.forall_mem_cons]
    simp

/-- **A form is read as it was sent** if and only if no value has an `&`, an `=` or a zero, and no value but the first has
anything that decoding changes: a `+`, or a `%` with two digits. -/
theorem form_items_iff (f : Field) (fs : List Field) :
    (parseQuery (formBody (f :: fs))).map itemPair = (f :: fs).map Field.pair ↔
      Clean f.value ∧ ∀ g ∈ fs, Clean g.value ∧ urldecode g.value = g.value := by
  have hbody : formBody (f :: fs) = f.bytes ++ tailOf 0 fs := by
    rw [formBody_cons, Field.bytes, List.append_assoc]
    rfl
  have hne : formBody (f :: fs) ≠ [] := by simp [hbody, f.bytes_ne]
  have hcounter : queryCounter (formBody (f :: fs)) = fs.length + 1 := by
    rw [queryCounter, hbody, countAmps_plain false _ (fun c hc => (f.bytes_plain c hc).1) f.bytes_ne, countAmps_tailOf]
    simp [Nat.add_comm]
  have hfree : 0 ∉ formBody (f :: fs) := by
    rw [hbody, List.mem_append, not_or]
    exact ⟨fun h => (f.bytes_plain 0 h).2 rfl, nulFree_tailOf fs⟩
  have hcut : cut (formBody (f :: fs)) = formBody (f :: fs) := by simpa [cut] using cut_append hfree []
  have hitems := @parseItems_iff fs f 0 (fs.length + 1) (Nat.lt_succ_self _)
  rw [Function.iterate_zero, id, ← formBody_cons, hcut] at hitems
  rw [parseQuery, if_neg hne, hcounter, hitems, AllGood, allGood_iff, Good]
  simp

end Form

/-! ## The items that are counted -/

section Count

variable {s : List UInt8}

/-- A text without escapes and zeros. -/
def Bare (s : List UInt8) : Prop := 37 ∉ s ∧ 0 ∉ s

instance (s : List UInt8) : Decidable (Bare s) := inferInstanceAs (Decidable (_ ∧ _))

theorem Bare.tail {c : UInt8} {t : List UInt8} (h : Bare (c :: t)) : Bare t :=
  ⟨fun hmem => h.1 (List.mem_cons_of_mem c hmem), fun hmem => h.2 (List.mem_cons_of_mem c hmem)⟩

theorem Bare.of_suffix {t : List UInt8} (h : Bare s) (ht : t <:+ s) : Bare t :=
  ⟨fun hmem => h.1 (ht.subset hmem), fun hmem => h.2 (ht.subset hmem)⟩

/-- Decoding makes a bare text spaces of its pluses, and nothing else. -/
theorem urldecode_bare : ∀ {s : List UInt8}, Bare s → urldecode s = s.map fun c => if c = 43 then 32 else c
  | [], _ => rfl
  | c :: s, h => by
    have hc : c ≠ 37 := fun hc => h.1 (by rw [hc]; exact List.mem_cons_self)
    rw [urldecode_cons, if_neg hc, urldecode_bare h.tail, List.map_cons]
    split_ifs <;> rfl

theorem bare_urldecode (h : Bare s) : Bare (urldecode s) ∧ cut (urldecode s) = urldecode s ∧ (urldecode s).length = s.length := by
  have hbare : Bare (urldecode s) := by
    rw [urldecode_bare h]
    constructor
    · intro hmem
      obtain ⟨c, hc, heq⟩ := List.mem_map.1 hmem
      split_ifs at heq
      · cases heq
      · exact h.1 (heq ▸ hc)
    · intro hmem
      obtain ⟨c, hc, heq⟩ := List.mem_map.1 hmem
      split_ifs at heq
      · cases heq
      · exact h.2 (heq ▸ hc)
  refine ⟨hbare, ?_, ?_⟩
  · simpa [cut] using cut_append hbare.2 []
  · rw [urldecode_bare h, List.length_map]

theorem countAmps_map (amp : Bool) : countAmps amp (s.map fun c => if c = 43 then 32 else c) = countAmps amp s := by
  induction s generalizing amp with
  | nil => rfl
  | cons c s ih =>
    have hamp : (if c = 43 then (32 : UInt8) else c) = 38 ↔ c = 38 := by
      split_ifs with hplus
      · rw [hplus]
        decide
      · exact Iff.rfl
    rw [List.map_cons, countAmps, countAmps, ih, ih]
    simp only [hamp]

/-- A part without an `&` counts for nothing. -/
theorem countAmps_segment : ∀ s : List UInt8, countAmps false (segment s).2 = countAmps false s ∧ (segment s).2 <:+ s
  | [] => ⟨rfl, List.suffix_refl _⟩
  | c :: s => by
    obtain ⟨hcount, hsuffix⟩ := countAmps_segment s
    rw [segment, List.span_eq_takeWhile_dropWhile] at hcount hsuffix ⊢
    rw [List.dropWhile_cons]
    split_ifs with hc
    · have hamp : c ≠ 38 := (of_decide_eq_true hc).1
      refine ⟨?_, hsuffix.trans (List.suffix_cons c s)⟩
      rw [hcount, countAmps, if_neg hamp]
      simp
    · exact ⟨rfl, List.suffix_refl _⟩

/-- The end of an item is that of a text or an `&`. -/
theorem segment_end (s : List UInt8) : (segment s).2 = [] ∨ ∃ c t, (segment s).2 = c :: t ∧ (c = 38 ∨ c = 61) := by
  rw [segment, List.span_eq_takeWhile_dropWhile]
  cases hrest : s.dropWhile fun c => decide (c ≠ 38 ∧ c ≠ 61) with
  | nil => exact Or.inl rfl
  | cons c t =>
    have hstop := List.head?_dropWhile_not (fun c => decide (c ≠ 38 ∧ c ≠ 61)) s
    rw [hrest] at hstop
    refine Or.inr ⟨c, t, rfl, ?_⟩
    simpa [not_and_or, or_iff_not_imp_left] using hstop

/-- What is behind a value counts for as much as what is in front of it. -/
theorem itemValue_count : ∀ {fuel : ℕ} {s : List UInt8}, Bare s → s.length < fuel →
    Bare (itemValue fuel s).2 ∧ Sep (itemValue fuel s).2 ∧ countAmps false (itemValue fuel s).2 = countAmps false s ∧
      (itemValue fuel s).2.length ≤ s.length
  | 0, _, _, h => absurd h (Nat.not_lt_zero _)
  | fuel + 1, s, hs, hfuel => by
    obtain ⟨hbare, hcut, hlen⟩ := bare_urldecode hs
    obtain ⟨hcount, hsuffix⟩ := countAmps_segment (urldecode s)
    have hsame : countAmps false (segment (urldecode s)).2 = countAmps false s := by
      rw [hcount, urldecode_bare hs, countAmps_map]
    have hle := hsuffix.length_le
    rw [itemValue, hcut]
    have hpair : segment (urldecode s) = ((segment (urldecode s)).1, (segment (urldecode s)).2) := rfl
    rcases segment_end (urldecode s) with hnil | ⟨c, t, hend, hc⟩
    · rw [hpair, hnil]
      rw [hnil] at hsame
      exact (⟨by decide, Or.inl rfl, hsame, Nat.zero_le _⟩ :
        Bare [] ∧ Sep [] ∧ countAmps false [] = countAmps false s ∧ ([] : List UInt8).length ≤ s.length)
    · have hrest : Bare (c :: t) := hend ▸ hbare.of_suffix hsuffix
      rw [hend, hlen] at hle
      rw [hend] at hsame
      rw [hpair, hend]
      rcases hc with rfl | rfl
      · exact (⟨hrest, Or.inr ⟨t, rfl⟩, hsame, hle⟩ :
          Bare (38 :: t) ∧ Sep (38 :: t) ∧ countAmps false (38 :: t) = countAmps false s ∧ (38 :: t).length ≤ s.length)
      · rw [List.length_cons] at hle
        obtain ⟨hb, hsep, hcnt, hl⟩ := @itemValue_count fuel t hrest.tail (by omega)
        have hskip : countAmps false t = countAmps false s := by
          rw [← hsame, countAmps, if_neg (by decide)]
          simp
        exact ⟨hb, hsep, hcnt.trans hskip, (hl.trans (Nat.le_succ _)).trans hle⟩

/-- What is behind an item counts for as much as the item and what is behind it. -/
theorem parseItem_count (hs : Bare s) : Bare (parseItem s).2 ∧ Sep (parseItem s).2 ∧
    countAmps false (parseItem s).2 = countAmps false s ∧ (parseItem s).2.length ≤ s.length := by
  obtain ⟨hcount, hsuffix⟩ := countAmps_segment s
  have hle := hsuffix.length_le
  have hpair : segment s = ((segment s).1, (segment s).2) := rfl
  rcases segment_end s with hnil | ⟨c, t, hend, hc⟩
  · rw [parseItem, hpair, hnil]
    rw [hnil] at hcount
    exact (⟨by decide, Or.inl rfl, hcount, Nat.zero_le _⟩ :
      Bare [] ∧ Sep [] ∧ countAmps false [] = countAmps false s ∧ ([] : List UInt8).length ≤ s.length)
  · have hrest : Bare (c :: t) := hend ▸ hs.of_suffix hsuffix
    rw [hend] at hcount hle
    rw [parseItem, hpair, hend]
    rcases hc with rfl | rfl
    · exact (⟨hrest, Or.inr ⟨t, rfl⟩, hcount, hle⟩ :
        Bare (38 :: t) ∧ Sep (38 :: t) ∧ countAmps false (38 :: t) = countAmps false s ∧ (38 :: t).length ≤ s.length)
    · obtain ⟨hb, hsep, hcnt, hl⟩ := itemValue_count hrest.tail (Nat.lt_succ_self t.length)
      have hskip : countAmps false t = countAmps false s := by
        rw [← hcount, countAmps, if_neg (by decide)]
        simp
      exact ⟨hb, hsep, hcnt.trans hskip, (hl.trans (Nat.le_succ _)).trans hle⟩

/-- The `&`s in front of the next item. -/
theorem countAmps_skip : ∀ t : List UInt8, match t.dropWhile (· = 38) with
    | [] => countAmps true t = 0
    | c :: r => countAmps true t = 1 + countAmps false (c :: r) ∧ c :: r <:+ t
  | [] => rfl
  | c :: t => by
    have hrest := countAmps_skip t
    by_cases hc : c = 38
    · subst hc
      rw [List.dropWhile_cons_of_pos (by decide), countAmps, if_pos rfl]
      split at hrest
      · exact hrest
      · exact ⟨hrest.1, hrest.2.trans (List.suffix_cons _ _)⟩
    · rw [List.dropWhile_cons_of_neg (by simpa using hc)]
      simp only
      rw [countAmps, countAmps, if_neg hc, if_neg hc]
      exact ⟨by simp, List.suffix_refl _⟩

/-- As many items as are counted. -/
theorem parseItems_length : ∀ {n : ℕ} {s : List UInt8}, Bare s → countAmps false s = n → (parseItems (n + 1) s).length = n + 1 := by
  intro n
  induction n with
  | zero =>
    intro s _ _
    rw [parseItems]
    split
    · split <;> rfl
    · rfl
  | succ n ih =>
    intro s hs hn
    obtain ⟨hbare, hsep, hcount, -⟩ := parseItem_count hs
    rw [parseItems, List.length_cons]
    rcases hsep with hnil | ⟨t, ht⟩
    · rw [hnil, countAmps, hn] at hcount
      cases hcount
    · rw [ht] at hbare hcount ⊢
      rw [countAmps, if_pos rfl, hn] at hcount
      have hskip := countAmps_skip t
      simp only
      cases hrest : t.dropWhile (· = 38) with
      | nil =>
        simp only [hrest] at hskip
        omega
      | cons c r =>
        simp only [hrest] at hskip
        have hnext := @ih (c :: r) (hbare.tail.of_suffix hskip.2) (by omega)
        simp only [hnext]

/-- **Every item that `query_counter` counts is filled in** when a query has no escapes. -/
theorem queryCounter_filled (hs : Bare s) (hne : s ≠ []) : (parseQuery s).length = queryCounter s := by
  rw [parseQuery, if_neg hne, queryCounter, Nat.add_comm]
  exact parseItems_length hs rfl

theorem queryCounter_filled_two : (parseQuery [97, 61, 49, 38, 38, 98]).length = queryCounter [97, 61, 49, 38, 38, 98] :=
  queryCounter_filled (by decide) (by decide)

/-- With an escaped `&` there can be one item more than is filled in: `a=1&%26&b=2`. -/
example : (parseQuery (text "a=1&%26&b=2")).length = 2 ∧ queryCounter (text "a=1&%26&b=2") = 3 := by decide

end Count

end W601.Query
