import W601.Lib.CNum

/-!
# `sscanf` with hexadecimal conversions

Formats of white space, plain characters and `%hhx`. A conversion skips white space, takes a sign, the mark of base 16
and as many digits as there are, and stores the number modulo 256; a mark without a digit behind it is no number.

* `scan`: what a format stores of a text.
* `Number`, `Matches`: the texts that a conversion and a whole format take, as a grammar.
* `scanHex_eq_some_iff`, `scan_complete_iff`: a format stores all its values exactly for the texts of its grammar.
-/

namespace Scanf

open CNum (isSpace)

/-- The value of a hexadecimal digit. -/
def hexValue (c : UInt8) : Option ℕ :=
  if 48 ≤ c ∧ c ≤ 57 then some (c.toNat - 48)
  else if 65 ≤ c ∧ c ≤ 70 then some (c.toNat - 55)
  else if 97 ≤ c ∧ c ≤ 102 then some (c.toNat - 87)
  else none

def isHex (c : UInt8) : Bool := (hexValue c).isSome

/-- The number that the digits `ds` write. -/
def value (ds : List UInt8) : ℕ := ds.foldl (fun n c => 16 * n + (hexValue c).getD 0) 0

/-- What is kept of a number in one byte. -/
def narrow (neg : Bool) (n : ℕ) : UInt8 := if neg then - UInt8.ofNat n else UInt8.ofNat n

/-- An optional sign. -/
def sign : List UInt8 → Bool × List UInt8
  | [] => (false, [])
  | c :: s => if c = 45 then (true, s) else if c = 43 then (false, s) else (false, c :: s)

/-- `x` or `X`. -/
def isMark (c : UInt8) : Bool := c = 120 || c = 88

/-- The optional `0x`. -/
def base : List UInt8 → List UInt8
  | c :: d :: s => if c = 48 && isMark d then s else c :: d :: s
  | s => s

/-- `%hhx`: the value and the text behind it. -/
def scanHex (s : List UInt8) : Option (UInt8 × List UInt8) :=
  let (neg, s) := sign (s.dropWhile isSpace)
  let s := base s
  let ds := s.takeWhile isHex
  if ds = [] then none else some (narrow neg (value ds), s.dropWhile isHex)

/-- The parts of a format. -/
inductive Directive where
  | space
  | literal (c : UInt8)
  | hhx
deriving DecidableEq

/-- `sscanf`: the values stored, in order. The number of them is what the call answers, unless the text ends before
the first (`EOF`). -/
def scan : List Directive → List UInt8 → List UInt8
  | [], _ => []
  | .space :: f, s => scan f (s.dropWhile isSpace)
  | .literal c :: f, s => if s.head? = some c then scan f s.tail else []
  | .hhx :: f, s => match scanHex s with
    | none => []
    | some (v, s) => v :: scan f s

/-! ## The grammar -/

/-- The texts that begin with a number, its value in a byte, and the text behind it. -/
inductive Number : List UInt8 → UInt8 → List UInt8 → Prop where
  | mk {ws sg mk ds rest : List UInt8} {neg : Bool} :
    (∀ c ∈ ws, isSpace c = true) →
    (sg = [45] ∧ neg = true ∨ (sg = [43] ∨ sg = []) ∧ neg = false) →
    (mk = [] ∨ ∃ x, isMark x = true ∧ mk = [48, x]) →
    ds ≠ [] → (∀ c ∈ ds, isHex c = true) →
    -- the digits go on as far as they can, and a zero with an `x` behind it is a mark
    rest.head?.any isHex = false → (mk = [] → ds = [48] → rest.head?.any isMark = false) →
    Number (ws ++ sg ++ mk ++ ds ++ rest) (narrow neg (value ds)) rest

/-- The texts that a format takes, anything behind them included, and the values. -/
inductive Matches : List Directive → List UInt8 → List UInt8 → Prop where
  | done (rest : List UInt8) : Matches [] rest []
  | space {f : List Directive} {ws s vs : List UInt8} : (∀ c ∈ ws, isSpace c = true) → s.head?.any isSpace = false →
    Matches f s vs → Matches (.space :: f) (ws ++ s) vs
  | literal {f : List Directive} {c : UInt8} {s vs : List UInt8} : Matches f s vs → Matches (.literal c :: f) (c :: s) vs
  | hhx {f : List Directive} {t rest vs : List UInt8} {v : UInt8} : Number t v rest → Matches f rest vs →
    Matches (.hhx :: f) t (v :: vs)

/-! ## Characters -/

theorem isHex_iff {c : UInt8} : isHex c = true ↔
    (48 ≤ c.toNat ∧ c.toNat ≤ 57) ∨ (65 ≤ c.toNat ∧ c.toNat ≤ 70) ∨ 97 ≤ c.toNat ∧ c.toNat ≤ 102 := by
  simp only [isHex, hexValue, UInt8.le_iff_toNat_le]
  split_ifs with h1 h2 h3
  · exact iff_of_true rfl (Or.inl h1)
  · exact iff_of_true rfl (Or.inr (Or.inl h2))
  · exact iff_of_true rfl (Or.inr (Or.inr h3))
  · exact iff_of_false (by simp) (by rintro (h | h | h) <;> contradiction)

/-- A digit is not white space, a sign or the letter of the mark. -/
theorem hex_plain {c : UInt8} (h : isHex c = true) : isSpace c = false ∧ c ≠ 45 ∧ c ≠ 43 ∧ isMark c = false := by
  have hr := isHex_iff.1 h
  have hne : ∀ d : UInt8, isHex d = false → c ≠ d := by
    rintro d hd rfl
    exact absurd h (by simp [hd])
  refine ⟨?_, hne 45 rfl, hne 43 rfl, ?_⟩
  · have h13 : ¬ c ≤ 13 := fun hle => by
      have hnat : c.toNat ≤ 13 := UInt8.le_iff_toNat_le.1 hle
      omega
    simp [isSpace, h13, hne 32 rfl]
  · simp [isMark, hne 120 rfl, hne 88 rfl]

theorem dropWhile_of_head {p : UInt8 → Bool} {s : List UInt8} (h : s.head?.any p = false) : s.dropWhile p = s := by
  cases s with
  | nil => rfl
  | cons c s => exact List.dropWhile_cons_of_neg (by simpa using h)

theorem takeWhile_of_head {p : UInt8 → Bool} {s : List UInt8} (h : s.head?.any p = false) : s.takeWhile p = [] := by
  cases s with
  | nil => rfl
  | cons c s => exact List.takeWhile_cons_of_neg (by simpa using h)

theorem head_dropWhile (p : UInt8 → Bool) (s : List UInt8) : (s.dropWhile p).head?.any p = false := by
  have h := List.head?_dropWhile_not p s
  cases hd : (s.dropWhile p).head? with
  | none => rfl
  | some c =>
    rw [hd] at h
    simpa using h

/-! ## One conversion -/

theorem sign_append {sg s : List UInt8} {neg : Bool} (hsg : sg = [45] ∧ neg = true ∨ (sg = [43] ∨ sg = []) ∧ neg = false)
    (hs : s.head?.any isHex = true) : sign (sg ++ s) = (neg, s) := by
  obtain ⟨c, s, rfl⟩ : ∃ c r, s = c :: r := List.exists_cons_of_ne_nil (by rintro rfl; simp at hs)
  obtain ⟨-, hminus, hplus, -⟩ := hex_plain (by simpa using hs : isHex c = true)
  rcases hsg with ⟨rfl, rfl⟩ | ⟨rfl | rfl, rfl⟩
  · rfl
  · rfl
  · simp [sign, hminus, hplus]

theorem sign_cases (s : List UInt8) : ∃ sg, s = sg ++ (sign s).2 ∧
    (sg = [45] ∧ (sign s).1 = true ∨ (sg = [43] ∨ sg = []) ∧ (sign s).1 = false) := by
  cases s with
  | nil => exact ⟨[], rfl, Or.inr ⟨Or.inr rfl, rfl⟩⟩
  | cons c s =>
    rw [sign]
    split_ifs with hminus hplus
    · exact ⟨[45], by rw [hminus]; rfl, Or.inl ⟨rfl, rfl⟩⟩
    · exact ⟨[43], by rw [hplus]; rfl, Or.inr ⟨Or.inl rfl, rfl⟩⟩
    · exact ⟨[], rfl, Or.inr ⟨Or.inr rfl, rfl⟩⟩

/-- Without the mark nothing is dropped. -/
theorem base_of_plain {c : UInt8} {s : List UInt8} (h : c = 48 → s.head?.any isMark = false) : base (c :: s) = c :: s := by
  cases s with
  | nil => rfl
  | cons d s =>
    rw [base, if_neg]
    intro hcd
    simp only [Bool.and_eq_true, decide_eq_true_eq] at hcd
    have hd := h hcd.1
    rw [List.head?_cons, Option.any_some, hcd.2] at hd
    exact absurd hd (by decide)

theorem base_append {mk ds rest : List UInt8} (hmk : mk = [] ∨ ∃ x, isMark x = true ∧ mk = [48, x]) (hne : ds ≠ [])
    (hds : ∀ c ∈ ds, isHex c = true) (hzero : mk = [] → ds = [48] → rest.head?.any isMark = false) :
    base (mk ++ (ds ++ rest)) = ds ++ rest := by
  rcases hmk with rfl | ⟨x, hx, rfl⟩
  · obtain ⟨c, ds, rfl⟩ := List.exists_cons_of_ne_nil hne
    apply base_of_plain
    rintro rfl
    cases ds with
    | nil => exact hzero rfl rfl
    | cons d ds =>
      have hd := (hex_plain (hds d (List.mem_cons_of_mem _ List.mem_cons_self))).2.2.2
      simpa using hd
  · simp [base, hx]

theorem base_cases (s : List UInt8) : ∃ mk, s = mk ++ base s ∧ (mk = [] ∨ ∃ x, isMark x = true ∧ mk = [48, x]) ∧
    (mk = [] → ∀ r, s = 48 :: r → r.head?.any isMark = false) := by
  by_cases h : ∃ d r, isMark d = true ∧ s = 48 :: d :: r
  · obtain ⟨d, r, hd, rfl⟩ := h
    exact ⟨[48, d], by simp [base, hd], Or.inr ⟨d, hd, rfl⟩, by simp⟩
  · have hno : ∀ r, s = 48 :: r → r.head?.any isMark = false := by
      rintro (_ | ⟨d, r⟩) rfl
      · rfl
      · cases hd : isMark d with
        | false => simp [hd]
        | true => exact absurd ⟨d, r, hd, rfl⟩ h
    refine ⟨[], ?_, Or.inl rfl, fun _ => hno⟩
    cases s with
    | nil => rfl
    | cons c s => exact (base_of_plain fun hc => hno s (by rw [hc])).symm

/-- A conversion takes the texts of the grammar. -/
theorem Number.scanHex {t rest : List UInt8} {v : UInt8} (h : Number t v rest) : scanHex t = some (v, rest) := by
  obtain @⟨ws, sg, mk, ds, rest, neg, hws, hsg, hmk, hne, hds, hrest, hzero⟩ := h
  have hbody : (mk ++ (ds ++ rest)).head?.any isHex = true := by
    rcases hmk with rfl | ⟨x, -, rfl⟩
    · obtain ⟨c, ds, rfl⟩ := List.exists_cons_of_ne_nil hne
      simpa using hds c List.mem_cons_self
    · rfl
  have hspace : (sg ++ (mk ++ (ds ++ rest))).head?.any isSpace = false := by
    rcases hsg with ⟨rfl, -⟩ | ⟨rfl | rfl, -⟩
    · rfl
    · rfl
    · obtain ⟨c, s, hs⟩ : ∃ c r, mk ++ (ds ++ rest) = c :: r :=
        List.exists_cons_of_ne_nil fun h => by rw [h] at hbody; simp at hbody
      rw [hs] at hbody
      rw [List.nil_append, hs]
      simpa using (hex_plain (by simpa using hbody : isHex c = true)).1
  have hdrop : (ws ++ sg ++ mk ++ ds ++ rest).dropWhile isSpace = sg ++ (mk ++ (ds ++ rest)) := by
    simp only [List.append_assoc]
    rw [List.dropWhile_append_of_pos hws, dropWhile_of_head hspace]
  have htake : (ds ++ rest).takeWhile isHex = ds := by
    rw [List.takeWhile_append_of_pos hds, takeWhile_of_head hrest, List.append_nil]
  have hleft : (ds ++ rest).dropWhile isHex = rest := by
    rw [List.dropWhile_append_of_pos hds, dropWhile_of_head hrest]
  simp only [Scanf.scanHex, hdrop, sign_append hsg hbody, base_append hmk hne hds hzero, htake, hleft, if_neg hne]

/-- **What `%hhx` takes and stores.** -/
theorem scanHex_eq_some_iff {t rest : List UInt8} {v : UInt8} : scanHex t = some (v, rest) ↔ Number t v rest := by
  refine ⟨fun h => ?_, Number.scanHex⟩
  obtain ⟨sg, hsg, hneg⟩ := sign_cases (t.dropWhile isSpace)
  obtain ⟨mk, hmk, hmark, hzero⟩ := base_cases (sign (t.dropWhile isSpace)).2
  simp only [Scanf.scanHex] at h
  set s := base (sign (t.dropWhile isSpace)).2 with hs
  obtain ⟨hne, hv⟩ := (Option.ite_none_left_eq_some).1 h
  obtain ⟨rfl, rfl⟩ := Prod.mk.inj (Option.some.inj hv)
  have ht : t = t.takeWhile isSpace ++ sg ++ mk ++ s.takeWhile isHex ++ s.dropWhile isHex := by
    simp only [List.append_assoc]
    rw [List.takeWhile_append_dropWhile, ← hmk, ← hsg, List.takeWhile_append_dropWhile]
  have hws : ∀ c ∈ t.takeWhile isSpace, isSpace c = true := fun c hc => List.mem_takeWhile_imp hc
  have hds : ∀ c ∈ s.takeWhile isHex, isHex c = true := fun c hc => List.mem_takeWhile_imp hc
  have hmarked : mk = [] → s.takeWhile isHex = [48] → (s.dropWhile isHex).head?.any isMark = false := by
    rintro rfl h48
    have hzeros : s = 48 :: s.dropWhile isHex :=
      calc s = s.takeWhile isHex ++ s.dropWhile isHex := List.takeWhile_append_dropWhile.symm
        _ = 48 :: s.dropWhile isHex := by rw [h48]; rfl
    exact hzero rfl _ (hmk.trans hzeros)
  have hnum := Number.mk hws hneg hmark hne hds (head_dropWhile isHex s) hmarked
  rw [← ht] at hnum
  exact hnum

/-! ## A whole format -/

/-- A format stores the values of its grammar. -/
theorem Matches.scan {f : List Directive} {s vs : List UInt8} (h : Matches f s vs) : scan f s = vs := by
  induction h with
  | done rest => rfl
  | space hws hs h ih => rw [Scanf.scan, List.dropWhile_append_of_pos hws, dropWhile_of_head hs, ih]
  | literal h ih => simp only [Scanf.scan, List.head?_cons, if_true, List.tail_cons, ih]
  | hhx hn h ih => simp only [Scanf.scan, hn.scanHex, ih]

theorem Matches.length {f : List Directive} {s vs : List UInt8} (h : Matches f s vs) : vs.length = f.count .hhx := by
  induction h with
  | done rest => rfl
  | space hws hs h ih => rw [ih]; rfl
  | literal h ih => rw [ih]; rfl
  | hhx hn h ih => rw [List.length_cons, ih, List.count_cons_self]

theorem scan_length_le (f : List Directive) : ∀ s, (scan f s).length ≤ f.count .hhx := by
  induction f with
  | nil => intro s; exact le_rfl
  | cons d f ih =>
    intro s
    cases d with
    | space => exact ih _
    | literal c =>
      rw [scan]
      split_ifs with hc
      · exact ih _
      · exact Nat.zero_le _
    | hhx =>
      rw [scan, List.count_cons_self]
      cases scanHex s with
      | none => exact Nat.zero_le _
      | some p => exact Nat.succ_le_succ (ih p.2)

/-- **A format that ends with a conversion stores all its values** for the texts of its grammar. -/
theorem scan_complete_iff {f : List Directive} (hlast : f.getLast? = some .hhx) {s : List UInt8} :
    (scan f s).length = f.count .hhx ↔ ∃ vs, Matches f s vs := by
  refine ⟨fun h => ⟨scan f s, ?_⟩, fun ⟨vs, h⟩ => by rw [h.scan, h.length]⟩
  induction f generalizing s with
  | nil => exact absurd hlast (by simp)
  | cons d f ih =>
    -- with nothing behind a directive, the directive is the conversion
    have hrest : f = [] ∧ d = .hhx ∨ f.getLast? = some .hhx := by
      cases f with
      | nil => exact Or.inl ⟨rfl, by simpa using hlast⟩
      | cons e f => exact Or.inr (by simpa [List.getLast?_cons_cons] using hlast)
    have hmore : f.getLast? = some .hhx → 0 < f.count .hhx := fun h =>
      List.count_pos_iff.2 (List.mem_of_getLast? h)
    cases d with
    | space =>
      have hf : f.getLast? = some .hhx := by simpa using hrest
      have hm := ih hf (s := s.dropWhile isSpace) h
      have hs : Matches (.space :: f) (s.takeWhile isSpace ++ s.dropWhile isSpace) (scan f (s.dropWhile isSpace)) :=
        .space (fun c hc => List.mem_takeWhile_imp hc) (head_dropWhile isSpace s) hm
      rw [List.takeWhile_append_dropWhile] at hs
      exact hs
    | literal c =>
      have hf : f.getLast? = some .hhx := by simpa using hrest
      have hcount : (Directive.literal c :: f).count .hhx = f.count .hhx := rfl
      rw [scan] at h ⊢
      split_ifs at h ⊢ with hc
      · obtain ⟨r, rfl⟩ := List.head?_eq_some_iff.1 hc
        exact .literal (ih hf h)
      · have hpos := hmore hf
        rw [hcount, List.length_nil] at h
        omega
    | hhx =>
      rw [scan] at h ⊢
      cases hx : scanHex s with
      | none => rw [hx, List.count_cons_self] at h; exact absurd h (by simp)
      | some p =>
        obtain ⟨v, r⟩ := p
        rw [hx, List.length_cons, List.count_cons_self] at h
        refine .hhx (scanHex_eq_some_iff.1 hx) ?_
        rcases hrest with ⟨rfl, -⟩ | hf
        · exact .done r
        · exact ih hf (by omega)

end Scanf
