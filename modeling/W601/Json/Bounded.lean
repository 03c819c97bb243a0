import W601.Json.CJson
import W601.Lib.Scan

/-!
# cJSON in a block that does not end with a NUL

The parser of `cJSON.c` reads up to a NUL. In a block without one it may go on behind the block, and a string with a
short `\u` escape may go on behind the memory it has asked for. Both are the outcome `outside`. The heap grants a number of
allocations; there is one for each node and one for each string.

* `cJSONParse`: the parser, with the bytes of its block.
* `parseValue_fuel`: the heap ends before the fuel does.
* `cJSONParse_ext`: what it makes of a block that it does not leave, it makes of every longer block.
-/

namespace W601.Json.Bounded

open CMem (text)
open Scan

/-- What is made of the text so far, the allocations that are left, and the text behind. -/
abbrev Parsed (α : Type) := (α × ℕ) × List UInt8

/-- `skip`. -/
def skip (t : List UInt8) : Scan (List UInt8) := skipWhile (fun c => c ≠ 0 && c ≤ 32) t

/-- The digits of `parse_hex4`, which looks no further than the first that is none. -/
def hexDigits : ℕ → ℕ → List UInt8 → Scan ℕ
  | 0, h, _ => .ok h
  | n + 1, h, t => do
    let (c, t) ← item t
    match hexDigit c with
    | none => .ok 0
    | some d => hexDigits n (h * 16 + d) t

/-- `parse_hex4`. -/
def parseHex4 (t : List UInt8) : Scan ℕ := hexDigits 4 0 t

/-- What is written for a second half of a surrogate pair. -/
def parseSurrogate (uc : ℕ) (t : List UInt8) : Scan (List UInt8 × List UInt8) := do
  let (b, u) ← item t
  if b ≠ 92 then .ok ([], t)
  else
    let (e, u) ← item u
    if e ≠ 117 then .ok ([], t)
    else
      let uc2 ← parseHex4 u
      let t ← advance 4 u
      if uc2 < 0xDC00 ∨ 0xDFFF < uc2 then .ok ([], t)
      else .ok (utf8 (0x10000 + ((uc &&& 0x3FF) <<< 10 ||| (uc2 &&& 0x3FF))), t)

/-- What is written for an escape with `u`; the pointer moves on by four whatever stands there. -/
def parseUnicode (t : List UInt8) : Scan (List UInt8 × List UInt8) := do
  let uc ← parseHex4 t
  let t ← advance 4 t
  if (0xDC00 ≤ uc ∧ uc ≤ 0xDFFF) ∨ uc = 0 then .ok ([], t)
  else if 0xD800 ≤ uc ∧ uc ≤ 0xDBFF then parseSurrogate uc t
  else .ok (utf8 uc, t)

/-- What is written for the text behind a backslash. -/
def parseEscape (t : List UInt8) : Scan (List UInt8 × List UInt8) := do
  let (e, t) ← item t
  if e = 117 then parseUnicode t else .ok ([unescape e], t)

/-- The first loop of `parse_string`: the length that is asked for. -/
def countChars : List UInt8 → Scan ℕ
  | [] => .outside
  -- behind a backslash one character is passed without a look at it
  | [c] => if c = 34 ∨ c = 0 then .ok 0 else .outside
  | c :: d :: t => do
    if c = 34 ∨ c = 0 then .ok 0
    else
      let n ← if c = 92 then countChars t else countChars (d :: t)
      .ok (n + 1)

/-- The second loop of `parse_string`: what is written. It goes round once for a character at most. -/
def parseChars : ℕ → List UInt8 → Scan (List UInt8 × List UInt8)
  | 0, _ => .outside
  | n + 1, t => do
    let (c, u) ← item t
    if c = 34 then .ok ([], u)
    else if c = 0 then .ok ([], t)
    else if c ≠ 92 then
      let (s, t) ← parseChars n u
      .ok (c :: s, t)
    else
      let (w, u) ← parseEscape u
      let (s, t) ← parseChars n u
      .ok (w ++ s, t)

/-- `parse_string`. -/
def parseString (g : ℕ) (t : List UInt8) : Scan (Parsed (List UInt8)) := do
  let (c, u) ← item t
  if c ≠ 34 then .rejected
  else
    let len ← countChars u
    match g with
    | 0 => .rejected
    | g + 1 =>
      let (s, t) ← parseChars u.length u
      if len < s.length then .outside else .ok ((s, g), t)

/-- The integer digits of a number. -/
def parseInt (t : List UInt8) : Scan (List UInt8 × List UInt8) := do
  let (c, _) ← item t
  if isDigit c ∧ c ≠ 48 then takeWhile isDigit t else .ok ([], t)

/-- A point with digits behind it. -/
def parseFrac (t : List UInt8) : Scan (List UInt8 × List UInt8) := do
  let (c, u) ← item t
  if c = 46 then
    let (d, _) ← item u
    if isDigit d then
      let (ds, t) ← takeWhile isDigit u
      .ok (46 :: ds, t)
    else .ok ([], t)
  else .ok ([], t)

/-- `parse_number`. -/
def parseNumber (t : List UInt8) : Scan (List UInt8 × List UInt8) := do
  let (sign, t) ← itemIf (· = 45) t
  let (zero, t) ← itemIf (· = 48) t
  let (int, t) ← parseInt t
  let (frac, t) ← parseFrac t
  let (e, t) ← itemIf (fun c => c = 101 || c = 69) t
  if e = [] then .ok (sign ++ zero ++ int ++ frac, t)
  else
    let (esign, t) ← itemIf (fun c => c = 43 || c = 45) t
    let (ds, t) ← takeWhile isDigit t
    .ok (sign ++ zero ++ int ++ frac ++ e ++ esign ++ ds, t)

section Loops

variable (value : ℕ → List UInt8 → Scan (Parsed Value))

/-- The loop of `parse_array`, which asks for a node in each round. -/
def parseElements : ℕ → ℕ → List UInt8 → Scan (Parsed (List Value))
  | 0, _, _ => .rejected
  | _ + 1, 0, _ => .rejected
  | k + 1, g + 1, t => do
    let t ← skip t
    let ((v, g), t) ← value g t
    let t ← skip t
    let (c, t) ← item t
    if c = 44 then
      let ((l, g), t) ← parseElements k g t
      .ok ((v :: l, g), t)
    else if c = 93 then .ok (([v], g), t)
    else .rejected

/-- The loop of `parse_object`. -/
def parseMembers : ℕ → ℕ → List UInt8 → Scan (Parsed (List (List UInt8 × Value)))
  | 0, _, _ => .rejected
  | _ + 1, 0, _ => .rejected
  | k + 1, g + 1, t => do
    let t ← skip t
    let ((name, g), t) ← parseString g t
    let t ← skip t
    let (c, t) ← item t
    if c ≠ 58 then .rejected
    else
      let t ← skip t
      let ((v, g), t) ← value g t
      let t ← skip t
      let (c, t) ← item t
      if c = 44 then
        let ((l, g), t) ← parseMembers k g t
        .ok (((name, v) :: l, g), t)
      else if c = 125 then .ok (([(name, v)], g), t)
      else .rejected

/-- The end of `parse_array` and of `parse_object`, behind the opening bracket. -/
def brackets {α : Type} (close : UInt8) (wrap : List α → Value) (loop : ℕ → List UInt8 → Scan (Parsed (List α)))
    (g : ℕ) (t : List UInt8) : Scan (Parsed Value) := do
  let t ← skip t
  let (c, u) ← item t
  if c = close then .ok ((wrap [], g), u)
  else
    let ((l, g), t) ← loop g t
    .ok ((wrap l, g), t)

/-- `parse_array`; each round takes an allocation, so their number is fuel enough. -/
def parseArray (g : ℕ) (t : List UInt8) : Scan (Parsed Value) :=
  brackets 93 .array (fun g => parseElements value g g) g t

/-- `parse_object`. -/
def parseObject (g : ℕ) (t : List UInt8) : Scan (Parsed Value) :=
  brackets 125 .object (fun g => parseMembers value g g) g t

end Loops

/-- `parse_value`. Each nested value has taken an allocation, so there are fewer left than the fuel. -/
def parseValue : ℕ → ℕ → List UInt8 → Scan (Parsed Value)
  | 0, _, _ => .rejected
  | n + 1, g, t => do
    if ← startsWith (text "null") t then
      let t ← advance 4 t
      .ok ((.null, g), t)
    else if ← startsWith (text "false") t then
      let t ← advance 5 t
      .ok ((.false, g), t)
    else if ← startsWith (text "true") t then
      let t ← advance 4 t
      .ok ((.true, g), t)
    else
      let (c, u) ← item t
      if c = 34 then
        let ((s, g), t) ← parseString g t
        .ok ((.string s, g), t)
      else if c = 45 ∨ isDigit c then
        let (chars, t) ← parseNumber t
        .ok ((.number chars, g), t)
      else if c = 91 then parseArray (parseValue n) g u
      else if c = 123 then parseObject (parseValue n) g u
      else .rejected

/-- `cJSON_Parse`, which does not look at what is behind the value; `g` allocations are granted. -/
def cJSONParse (g : ℕ) (t : List UInt8) : Scan Value :=
  match g with
  | 0 => .rejected
  | g + 1 => do
    let t ← skip t
    let ((v, _), _) ← parseValue (g + 1) g t
    .ok v

/-! ## Longer blocks -/

section Longer

variable (b : List UInt8)

theorem ext_skip (t : List UInt8) : Ext (Behind b) (skip t) (skip (t ++ b)) := ext_skipWhile b _ t

theorem ext_hexDigits (n h : ℕ) (t : List UInt8) : Ext Eq (hexDigits n h t) (hexDigits n h (t ++ b)) := by
  induction n generalizing h t with
  | zero => exact Ext.ok rfl
  | succ n ih =>
    simp only [hexDigits]
    refine (ext_item b t).bind ?_
    rintro ⟨c, t⟩ _ rfl
    simp only
    cases hexDigit c with
    | none => exact Ext.ok rfl
    | some d => exact ih _ t

/-- Hexadecimal digits that the pointer is then moved behind. -/
theorem ext_hex {α : Type} {f : ℕ → List UInt8 → Scan (α × List UInt8)} (t : List UInt8)
    (hf : ∀ uc t, Ext (With b) (f uc t) (f uc (t ++ b))) :
    Ext (With b) (do let uc ← parseHex4 t; let t ← advance 4 t; f uc t)
      (do let uc ← parseHex4 (t ++ b); let t ← advance 4 (t ++ b); f uc t) := by
  refine (ext_hexDigits b 4 0 t).bind ?_
  rintro uc _ rfl
  refine (ext_advance b 4 t).bind ?_
  rintro t _ rfl
  exact hf uc t

theorem ext_parseSurrogate (uc : ℕ) (t : List UInt8) :
    Ext (With b) (parseSurrogate uc t) (parseSurrogate uc (t ++ b)) := by
  unfold parseSurrogate
  refine (ext_item b t).bind ?_
  rintro ⟨c, u⟩ _ rfl
  simp only
  split_ifs with hc
  · exact Ext.ok rfl
  · refine (ext_item b u).bind ?_
    rintro ⟨e, u⟩ _ rfl
    simp only
    split_ifs with he
    · exact Ext.ok rfl
    · refine ext_hex b u fun uc2 t => ?_
      split_ifs with huc
      · exact Ext.ok rfl
      · exact Ext.ok rfl

theorem ext_parseEscape (t : List UInt8) : Ext (With b) (parseEscape t) (parseEscape (t ++ b)) := by
  unfold parseEscape
  refine (ext_item b t).bind ?_
  rintro ⟨e, t⟩ _ rfl
  simp only
  split_ifs with he
  · refine ext_hex b t fun uc t => ?_
    split_ifs with hnone hpair
    · exact Ext.ok rfl
    · exact ext_parseSurrogate b uc t
    · exact Ext.ok rfl
  · exact Ext.ok rfl

theorem ext_countChars (t : List UInt8) : Ext Eq (countChars t) (countChars (t ++ b)) := by
  induction t using countChars.induct with
  | case1 => exact Ext.outside
  | case2 c hend =>
    rw [countChars, if_pos hend]
    cases b with
    | nil => rw [List.append_nil, countChars, if_pos hend]; exact Ext.ok rfl
    | cons d b => rw [List.singleton_append, countChars, if_pos hend]; exact Ext.ok rfl
  | case3 c hend =>
    rw [countChars, if_neg hend]
    exact Ext.outside
  | case4 c d t hend =>
    simp only [List.cons_append, countChars, if_pos hend]
    exact Ext.ok rfl
  | case5 d t hend ih =>
    simp only [List.cons_append, countChars, if_neg hend, if_true]
    exact ih.bind fun n _ hn => Ext.ok (by rw [hn])
  | case6 c d t hend hb ih =>
    simp only [List.cons_append, countChars, if_neg hend, if_neg hb]
    exact ih.bind fun n _ hn => Ext.ok (by rw [hn])

/-- The second loop with more rounds to go. -/
theorem ext_parseChars (n m : ℕ) (t : List UInt8) (h : n ≤ m) :
    Ext (With b) (parseChars n t) (parseChars m (t ++ b)) := by
  induction n generalizing m t with
  | zero => exact Ext.outside
  | succ n ih =>
    obtain ⟨m, rfl⟩ := Nat.exists_eq_succ_of_ne_zero (show m ≠ 0 by omega)
    have ih := fun t => ih m t (by omega)
    simp only [parseChars]
    refine (ext_item b t).bind ?_
    rintro ⟨c, u⟩ _ rfl
    simp only
    split_ifs with hquote hnul hplain
    · exact Ext.ok rfl
    · exact Ext.ok rfl
    · refine (ih u).bind ?_
      rintro ⟨s, t⟩ _ rfl
      exact Ext.ok rfl
    · refine (ext_parseEscape b u).bind ?_
      rintro ⟨w, u⟩ _ rfl
      refine (ih u).bind ?_
      rintro ⟨s, t⟩ _ rfl
      exact Ext.ok rfl

theorem ext_parseString (g : ℕ) (t : List UInt8) : Ext (With b) (parseString g t) (parseString g (t ++ b)) := by
  unfold parseString
  refine (ext_item b t).bind ?_
  rintro ⟨c, u⟩ _ rfl
  simp only
  split_ifs with hc
  · exact Ext.rejected
  · refine (ext_countChars b u).bind ?_
    rintro len _ rfl
    cases g with
    | zero => exact Ext.rejected
    | succ g =>
      refine (ext_parseChars b _ _ u (by rw [List.length_append]; omega)).bind ?_
      rintro ⟨s, t⟩ _ rfl
      simp only
      split_ifs with hlen
      · exact Ext.outside
      · exact Ext.ok rfl

theorem ext_parseInt (t : List UInt8) : Ext (With b) (parseInt t) (parseInt (t ++ b)) := by
  unfold parseInt
  refine (ext_item b t).bind ?_
  rintro ⟨c, u⟩ _ rfl
  simp only
  split_ifs with hc
  · exact ext_takeWhile b _ t
  · exact Ext.ok rfl

theorem ext_parseFrac (t : List UInt8) : Ext (With b) (parseFrac t) (parseFrac (t ++ b)) := by
  unfold parseFrac
  refine (ext_item b t).bind ?_
  rintro ⟨c, u⟩ _ rfl
  simp only
  split_ifs with hc
  · refine (ext_item b u).bind ?_
    rintro ⟨d, v⟩ _ rfl
    simp only
    split_ifs with hd
    · refine (ext_takeWhile b _ u).bind ?_
      rintro ⟨ds, t⟩ _ rfl
      exact Ext.ok rfl
    · exact Ext.ok rfl
  · exact Ext.ok rfl

theorem ext_parseNumber (t : List UInt8) : Ext (With b) (parseNumber t) (parseNumber (t ++ b)) := by
  unfold parseNumber
  refine (ext_itemIf b _ t).bind ?_
  rintro ⟨sign, t⟩ _ rfl
  refine (ext_itemIf b _ t).bind ?_
  rintro ⟨zero, t⟩ _ rfl
  refine (ext_parseInt b t).bind ?_
  rintro ⟨int, t⟩ _ rfl
  refine (ext_parseFrac b t).bind ?_
  rintro ⟨frac, t⟩ _ rfl
  refine (ext_itemIf b _ t).bind ?_
  rintro ⟨e, t⟩ _ rfl
  simp only
  split_ifs with he
  · exact Ext.ok rfl
  · refine (ext_itemIf b _ t).bind ?_
    rintro ⟨esign, t⟩ _ rfl
    refine (ext_takeWhile b _ t).bind ?_
    rintro ⟨ds, t⟩ _ rfl
    exact Ext.ok rfl

section Loops

variable {value : ℕ → List UInt8 → Scan (Parsed Value)}

theorem ext_parseElements (hv : ∀ g t, Ext (With b) (value g t) (value g (t ++ b))) (k g : ℕ) (t : List UInt8) :
    Ext (With b) (parseElements value k g t) (parseElements value k g (t ++ b)) := by
  induction k generalizing g t with
  | zero => exact Ext.rejected
  | succ k ih =>
    cases g with
    | zero => exact Ext.rejected
    | succ g =>
      simp only [parseElements]
      refine (ext_skip b t).bind ?_
      rintro t _ rfl
      refine (hv g t).bind ?_
      rintro ⟨⟨v, g⟩, t⟩ _ rfl
      refine (ext_skip b t).bind ?_
      rintro t _ rfl
      refine (ext_item b t).bind ?_
      rintro ⟨c, t⟩ _ rfl
      simp only
      split_ifs with hcomma hclose
      · refine (ih g t).bind ?_
        rintro ⟨⟨l, g⟩, t⟩ _ rfl
        exact Ext.ok rfl
      · exact Ext.ok rfl
      · exact Ext.rejected

theorem ext_parseMembers (hv : ∀ g t, Ext (With b) (value g t) (value g (t ++ b))) (k g : ℕ) (t : List UInt8) :
    Ext (With b) (parseMembers value k g t) (parseMembers value k g (t ++ b)) := by
  induction k generalizing g t with
  | zero => exact Ext.rejected
  | succ k ih =>
    cases g with
    | zero => exact Ext.rejected
    | succ g =>
      simp only [parseMembers]
      refine (ext_skip b t).bind ?_
      rintro t _ rfl
      refine (ext_parseString b g t).bind ?_
      rintro ⟨⟨name, g⟩, t⟩ _ rfl
      refine (ext_skip b t).bind ?_
      rintro t _ rfl
      refine (ext_item b t).bind ?_
      rintro ⟨c, t⟩ _ rfl
      simp only
      split_ifs with hcolon
      · exact Ext.rejected
      · refine (ext_skip b t).bind ?_
        rintro t _ rfl
        refine (hv g t).bind ?_
        rintro ⟨⟨v, g⟩, t⟩ _ rfl
        refine (ext_skip b t).bind ?_
        rintro t _ rfl
        refine (ext_item b t).bind ?_
        rintro ⟨c, t⟩ _ rfl
        simp only
        split_ifs with hcomma hclose
        · refine (ih g t).bind ?_
          rintro ⟨⟨l, g⟩, t⟩ _ rfl
          exact Ext.ok rfl
        · exact Ext.ok rfl
        · exact Ext.rejected

theorem ext_brackets {α : Type} (close : UInt8) (wrap : List α → Value)
    {loop : ℕ → List UInt8 → Scan (Parsed (List α))} (hl : ∀ g t, Ext (With b) (loop g t) (loop g (t ++ b))) (g : ℕ) (t : List UInt8) :
    Ext (With b) (brackets close wrap loop g t) (brackets close wrap loop g (t ++ b)) := by
  unfold brackets
  refine (ext_skip b t).bind ?_
  rintro t _ rfl
  refine (ext_item b t).bind ?_
  rintro ⟨c, u⟩ _ rfl
  simp only
  split_ifs with hclose
  · exact Ext.ok rfl
  · refine (hl g t).bind ?_
    rintro ⟨⟨l, g⟩, t⟩ _ rfl
    exact Ext.ok rfl

end Loops

/-- A word, and what is tried when the text does not begin with it. -/
theorem ext_word (w t : List UInt8) (n g : ℕ) (v : Value) {x y : Scan (Parsed Value)} (h : Ext (With b) x y) :
    Ext (With b)
      (do if ← startsWith w t then let t ← advance n t; .ok ((v, g), t) else x)
      (do if ← startsWith w (t ++ b) then let t ← advance n (t ++ b); .ok ((v, g), t) else y) := by
  refine (ext_startsWith b w t).bind ?_
  rintro found _ rfl
  cases found with
  | true =>
    refine (ext_advance b n t).bind ?_
    rintro t _ rfl
    exact Ext.ok rfl
  | false => exact h

/-- **A value is read the same way in a longer block**, where its block is not left. -/
theorem ext_parseValue (n g : ℕ) (t : List UInt8) : Ext (With b) (parseValue n g t) (parseValue n g (t ++ b)) := by
  induction n generalizing g t with
  | zero => exact Ext.rejected
  | succ n ih =>
    simp only [parseValue]
    refine ext_word b _ t 4 g _ (ext_word b _ t 5 g _ (ext_word b _ t 4 g _ ?_))
    refine (ext_item b t).bind ?_
    rintro ⟨c, u⟩ _ rfl
    simp only
    split_ifs with hquote hnum hlist hobj
    · refine (ext_parseString b g t).bind ?_
      rintro ⟨⟨s, g⟩, t⟩ _ rfl
      exact Ext.ok rfl
    · refine (ext_parseNumber b t).bind ?_
      rintro ⟨chars, t⟩ _ rfl
      exact Ext.ok rfl
    · exact ext_brackets b 93 .array (fun g => ext_parseElements b ih g g) g u
    · exact ext_brackets b 125 .object (fun g => ext_parseMembers b ih g g) g u
    · exact Ext.rejected

/-- **What the parser makes of a block that it does not leave, it makes of every longer block.** -/
theorem cJSONParse_ext (g : ℕ) (t : List UInt8) : Ext Eq (cJSONParse g t) (cJSONParse g (t ++ b)) := by
  cases g with
  | zero => exact Ext.rejected
  | succ g =>
    simp only [cJSONParse]
    refine (ext_skip b t).bind ?_
    rintro t _ rfl
    refine (ext_parseValue b _ g t).bind ?_
    rintro ⟨⟨v, g⟩, t⟩ _ rfl
    exact Ext.ok rfl

end Longer

/-! ## Allocations -/

/-- No more allocations are left than there were. -/
def Spends {α : Type} (g : ℕ) (x : Scan (Parsed α)) : Prop := ∀ p, x = .ok p → p.1.2 ≤ g

theorem parseString_spends (g : ℕ) (t : List UInt8) : Spends g (parseString g t) := by
  intro p h
  unfold parseString at h
  rw [bind_eq_ok] at h
  obtain ⟨⟨c, u⟩, -, h⟩ := h
  simp only at h
  split_ifs at h
  obtain ⟨len, -, h⟩ := bind_eq_ok.1 h
  cases g with
  | zero => cases h
  | succ g =>
    obtain ⟨⟨s, t'⟩, -, h⟩ := bind_eq_ok.1 h
    simp only at h
    split_ifs at h
    cases h
    exact Nat.le_succ g

section Loops

variable {value value' : ℕ → List UInt8 → Scan (Parsed Value)}

theorem parseElements_spends (hv : ∀ g t, Spends g (value g t)) (k g : ℕ) (t : List UInt8) :
    Spends g (parseElements value k g t) := by
  induction k generalizing g t with
  | zero => intro p h; cases h
  | succ k ih =>
    cases g with
    | zero => intro p h; cases h
    | succ g =>
      intro p h
      simp only [parseElements, bind_eq_ok] at h
      obtain ⟨t₁, -, q, hq, t₂, -, ⟨c, t₃⟩, -, h⟩ := h
      have hle := hv g t₁ q hq
      dsimp only at h
      split_ifs at h
      · obtain ⟨q', hq', h⟩ := bind_eq_ok.1 h
        have hle' := ih q.1.2 t₃ q' hq'
        cases h
        exact Nat.le_succ_of_le (hle'.trans hle)
      · cases h
        exact Nat.le_succ_of_le hle

theorem parseMembers_spends (hv : ∀ g t, Spends g (value g t)) (k g : ℕ) (t : List UInt8) :
    Spends g (parseMembers value k g t) := by
  induction k generalizing g t with
  | zero => intro p h; cases h
  | succ k ih =>
    cases g with
    | zero => intro p h; cases h
    | succ g =>
      intro p h
      simp only [parseMembers, bind_eq_ok] at h
      obtain ⟨t₁, -, s, hs, t₂, -, ⟨c, t₃⟩, -, h⟩ := h
      have hle := parseString_spends g t₁ s hs
      dsimp only at h
      split_ifs at h
      simp only [bind_eq_ok] at h
      obtain ⟨t₄, -, q, hq, t₅, -, ⟨d, t₆⟩, -, h⟩ := h
      have hle' := hv s.1.2 t₄ q hq
      dsimp only at h
      split_ifs at h
      · obtain ⟨q', hq', h⟩ := bind_eq_ok.1 h
        have hle'' := ih q.1.2 t₆ q' hq'
        cases h
        exact Nat.le_succ_of_le (hle''.trans (hle'.trans hle))
      · cases h
        exact Nat.le_succ_of_le (hle'.trans hle)

/-- With a round for each allocation the loop does not run out of rounds. -/
theorem parseElements_rounds (hv : ∀ g t, Spends g (value g t)) (k : ℕ) :
    ∀ (k' g : ℕ), g ≤ k → g ≤ k' → (∀ g' < g, ∀ t, value g' t = value' g' t) →
      ∀ t, parseElements value k g t = parseElements value' k' g t := by
  induction k with
  | zero =>
    intro k' g hk _ _ t
    obtain rfl : g = 0 := by omega
    cases k' <;> rfl
  | succ k ih =>
    intro k' g hk hk' hvv t
    cases g with
    | zero => cases k' <;> rfl
    | succ g =>
      obtain ⟨k', rfl⟩ := Nat.exists_eq_succ_of_ne_zero (show k' ≠ 0 by omega)
      simp only [parseElements]
      refine bind_congr fun t₁ _ => ?_
      rw [← hvv g (by omega)]
      refine bind_congr fun q hq => ?_
      have hle := hv g t₁ q hq
      refine bind_congr fun t₂ _ => bind_congr fun p _ => ?_
      rw [ih k' q.1.2 (by omega) (by omega) (fun g' hg' => hvv g' (by omega)) p.2]

/-- The loop of `parse_object`. -/
theorem parseMembers_rounds (hv : ∀ g t, Spends g (value g t)) (k : ℕ) :
    ∀ (k' g : ℕ), g ≤ k → g ≤ k' → (∀ g' < g, ∀ t, value g' t = value' g' t) →
      ∀ t, parseMembers value k g t = parseMembers value' k' g t := by
  induction k with
  | zero =>
    intro k' g hk _ _ t
    obtain rfl : g = 0 := by omega
    cases k' <;> rfl
  | succ k ih =>
    intro k' g hk hk' hvv t
    cases g with
    | zero => cases k' <;> rfl
    | succ g =>
      obtain ⟨k', rfl⟩ := Nat.exists_eq_succ_of_ne_zero (show k' ≠ 0 by omega)
      simp only [parseMembers]
      refine bind_congr fun t₁ _ => bind_congr fun s hs => ?_
      have hle := parseString_spends g t₁ s hs
      refine bind_congr fun t₂ _ => bind_congr fun p _ => ?_
      congr 1
      refine bind_congr fun t₃ _ => ?_
      rw [← hvv s.1.2 (by omega)]
      refine bind_congr fun q hq => ?_
      have hle' := hv s.1.2 t₃ q hq
      refine bind_congr fun t₄ _ => bind_congr fun p _ => ?_
      rw [ih k' q.1.2 (by omega) (by omega) (fun g' hg' => hvv g' (by omega)) p.2]

theorem brackets_spends {α : Type} {close : UInt8} {wrap : List α → Value}
    {loop : ℕ → List UInt8 → Scan (Parsed (List α))} (hl : ∀ g t, Spends g (loop g t)) (g : ℕ) (t : List UInt8) :
    Spends g (brackets close wrap loop g t) := by
  intro p h
  simp only [brackets, bind_eq_ok] at h
  obtain ⟨u, -, ⟨c, v⟩, -, h⟩ := h
  dsimp only at h
  split_ifs at h
  · cases h
    exact le_rfl
  · obtain ⟨q, hq, h⟩ := bind_eq_ok.1 h
    cases h
    exact hl g u q hq

end Loops

/-- What is made behind a word. -/
theorem word_spends {w t : List UInt8} {n g : ℕ} {v : Value} {x : Scan (Parsed Value)} (h : Spends g x) :
    Spends g (do if ← startsWith w t then let t ← advance n t; .ok ((v, g), t) else x) := by
  intro p hp
  rw [bind_eq_ok] at hp
  obtain ⟨found, -, hp⟩ := hp
  cases found with
  | true =>
    rw [if_pos rfl, bind_eq_ok] at hp
    obtain ⟨u, -, hp⟩ := hp
    cases hp
    exact le_rfl
  | false => exact h p hp

theorem parseValue_spends (n g : ℕ) (t : List UInt8) : Spends g (parseValue n g t) := by
  induction n generalizing g t with
  | zero => intro p h; cases h
  | succ n ih =>
    simp only [parseValue]
    refine word_spends (word_spends (word_spends fun p h => ?_))
    rw [bind_eq_ok] at h
    obtain ⟨⟨c, u⟩, -, h⟩ := h
    dsimp only at h
    split_ifs at h with hquote hnum hlist hobj
    · obtain ⟨q, hq, h⟩ := bind_eq_ok.1 h
      cases h
      exact parseString_spends g t q hq
    · obtain ⟨q, -, h⟩ := bind_eq_ok.1 h
      cases h
      exact le_rfl
    · exact brackets_spends (fun g => parseElements_spends ih g g) g u p h
    · exact brackets_spends (fun g => parseMembers_spends ih g g) g u p h

/-- **The fuel does not run out**: any that is above the allocations does. -/
theorem parseValue_fuel (n : ℕ) : ∀ (m g : ℕ), g < n → g < m → ∀ t, parseValue n g t = parseValue m g t := by
  induction n with
  | zero => intro m g hn; omega
  | succ n ih =>
    intro m g hn hm t
    obtain ⟨m, rfl⟩ := Nat.exists_eq_succ_of_ne_zero (show m ≠ 0 by omega)
    have hvv : ∀ g' < g, ∀ t, parseValue n g' t = parseValue m g' t := fun g' hg' => ih m g' (by omega) (by omega)
    have hels := parseElements_rounds (parseValue_spends n) g g g le_rfl le_rfl hvv
    have hmem := parseMembers_rounds (parseValue_spends n) g g g le_rfl le_rfl hvv
    simp only [parseValue, parseArray, parseObject, brackets, hels, hmem]

end W601.Json.Bounded
