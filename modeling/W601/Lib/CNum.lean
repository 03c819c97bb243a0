import Mathlib

/-!
# Numbers as texts

`atoi` and the `%d` of `printf`, over bytes.

* `atoi_decimal`: a number that is printed is read back.
-/

namespace CNum

def isSpace (c : UInt8) : Bool := c = 32 || (9 ≤ c && c ≤ 13)

def isDigit (c : UInt8) : Bool := 48 ≤ c && c ≤ 57

/-- The value of leading decimal digits. -/
def digits (s : List UInt8) : ℤ := (s.takeWhile isDigit).foldl (fun n c => 10 * n + (c.toNat - 48)) 0

/-- `atoi`. -/
def atoi (s : List UInt8) : ℤ :=
  match s.dropWhile isSpace with
  | 45 :: t => - digits t
  | 43 :: t => digits t
  | t => digits t

/-- `%d` of a number that is not negative. -/
def decimal (n : ℕ) : List UInt8 := (Nat.toDigits 10 n).map fun c => UInt8.ofNat c.toNat

theorem toNat_of_isDigit {c : Char} (h : c.isDigit = true) : 48 ≤ c.toNat ∧ c.toNat ≤ 57 := by
  simp only [Char.isDigit, Bool.and_eq_true, decide_eq_true_eq] at h
  exact ⟨by exact_mod_cast UInt32.le_iff_toNat_le.1 h.1, by exact_mod_cast UInt32.le_iff_toNat_le.1 h.2⟩

/-- The bytes of a decimal number are digits. -/
theorem isDigit_decimal {n : ℕ} {b : UInt8} (h : b ∈ decimal n) : isDigit b = true := by
  obtain ⟨c, hc, rfl⟩ := List.mem_map.1 h
  obtain ⟨h1, h2⟩ := toNat_of_isDigit (Nat.isDigit_of_mem_toDigits (by decide) le_rfl hc)
  have hnat : (UInt8.ofNat c.toNat).toNat = c.toNat := by
    rw [UInt8.toNat_ofNat', Nat.mod_eq_of_lt (by omega)]
  simp only [isDigit, Bool.and_eq_true, decide_eq_true_eq, UInt8.le_iff_toNat_le, hnat]
  exact ⟨h1, h2⟩

theorem foldl_digits {cs : List Char} (h : ∀ c ∈ cs, c.isDigit = true) : ∀ n : ℕ,
    (cs.map fun c => UInt8.ofNat c.toNat).foldl (fun (n : ℤ) c => 10 * n + (c.toNat - 48)) n =
      Nat.ofDigitChars 10 cs n := by
  induction cs with
  | nil => intro n; simp
  | cons c cs ih =>
    intro n
    obtain ⟨h1, h2⟩ := toNat_of_isDigit (h c List.mem_cons_self)
    have hnat : (UInt8.ofNat c.toNat).toNat = c.toNat := by
      rw [UInt8.toNat_ofNat', Nat.mod_eq_of_lt (by omega)]
    have hstep : (10 * (n : ℤ) + ((UInt8.ofNat c.toNat).toNat - 48)) = ((10 * n + (c.toNat - '0'.toNat) : ℕ) : ℤ) := by
      have h0 : '0'.toNat = 48 := rfl
      rw [hnat, h0]
      omega
    rw [List.map_cons, List.foldl_cons, Nat.ofDigitChars_cons, hstep]
    exact ih (fun d hd => h d (List.mem_cons_of_mem _ hd)) _

/-- A digit is neither a space nor a sign. -/
theorem digit_plain {b : UInt8} (h : isDigit b = true) : isSpace b = false ∧ b ≠ 45 ∧ b ≠ 43 := by
  simp only [isDigit, Bool.and_eq_true, decide_eq_true_eq] at h
  have h1 : 48 ≤ b.toNat := UInt8.le_iff_toNat_le.1 h.1
  refine ⟨?_, ?_, ?_⟩
  · have h32 : b ≠ 32 := by rintro rfl; exact absurd h1 (by decide)
    have h13 : ¬ b ≤ 13 := fun hle => by
      have hnat : b.toNat ≤ 13 := UInt8.le_iff_toNat_le.1 hle
      omega
    simp [isSpace, h32, h13]
  · rintro rfl
    exact absurd h1 (by decide)
  · rintro rfl
    exact absurd h1 (by decide)

/-- **A number that is printed is read back.** -/
theorem atoi_decimal (n : ℕ) : atoi (decimal n) = n := by
  have hdigits : digits (decimal n) = n := by
    have hall : (decimal n).takeWhile isDigit = decimal n := List.takeWhile_eq_self_iff.2 fun b hb => isDigit_decimal hb
    rw [digits, hall, decimal]
    have hchars : ∀ c ∈ Nat.toDigits 10 n, c.isDigit = true := fun c hc =>
      Nat.isDigit_of_mem_toDigits (by decide) le_rfl hc
    have hfold := foldl_digits hchars 0
    rw [Nat.ofDigitChars_ten_toDigits] at hfold
    exact_mod_cast hfold
  obtain ⟨b, t, hb⟩ : ∃ b t, decimal n = b :: t := by
    apply List.exists_cons_of_ne_nil
    rw [decimal, Ne, List.map_eq_nil_iff]
    exact Nat.toDigits_ne_nil
  have hdig : isDigit b = true := isDigit_decimal (n := n) (by rw [hb]; exact List.mem_cons_self)
  obtain ⟨hspace, hminus, hplus⟩ := digit_plain hdig
  have hdrop : (decimal n).dropWhile isSpace = b :: t := by
    rw [hb, List.dropWhile_cons, hspace]
    rfl
  rw [atoi, hdrop, ← hdigits, hb]
  split
  · rename_i heq
    exact absurd (List.cons.inj heq).1 hminus
  · rename_i heq
    exact absurd (List.cons.inj heq).1 hplus
  · rfl

end CNum
