import Mathlib

/-!
# Numbers and texts in packets

* `vbi`: a number in bytes of seven bits, the lowest first, all but the last with the high bit set.
* `num`: a number in two bytes, the higher first.
* `string`: a text behind its length.
* `readVbi_vbi`, `readNum_num`, `readString_string`: what is written is read back, with anything behind it left alone.
-/

namespace Wire

/-- The number `x` in `k + 1` bytes at most. -/
def vbi : ℕ → ℕ → List UInt8
  | 0, x => [UInt8.ofNat (x % 128)]
  | k + 1, x => if x / 128 = 0 then [UInt8.ofNat (x % 128)] else UInt8.ofNat (x % 128 + 128) :: vbi k (x / 128)

def readVbi : List UInt8 → Option (ℕ × List UInt8)
  | [] => none
  | b :: t =>
    if b.toNat < 128 then some (b.toNat, t)
    else (readVbi t).map fun p => (b.toNat - 128 + 128 * p.1, p.2)

def num (n : ℕ) : List UInt8 := [UInt8.ofNat (n / 256), UInt8.ofNat (n % 256)]

def readNum : List UInt8 → Option (ℕ × List UInt8)
  | a :: b :: t => some (a.toNat * 256 + b.toNat, t)
  | _ => none

def string (s : List UInt8) : List UInt8 := num s.length ++ s

def readString (t : List UInt8) : Option (List UInt8 × List UInt8) :=
  (readNum t).bind fun p => if p.1 ≤ p.2.length then some (p.2.take p.1, p.2.drop p.1) else none

theorem toNat_ofNat {n : ℕ} (h : n < 256) : (UInt8.ofNat n).toNat = n := by
  rw [UInt8.toNat_ofNat', Nat.mod_eq_of_lt h]

/-- A number that ends is read. -/
theorem readVbi_last {x : ℕ} (h : x < 128) (rest : List UInt8) : readVbi (UInt8.ofNat (x % 128) :: rest) = some (x, rest) := by
  have hx : (UInt8.ofNat (x % 128)).toNat = x := by rw [Nat.mod_eq_of_lt h, toNat_ofNat (by omega)]
  rw [readVbi, hx, if_pos h]

/-- **A number is read back.** -/
theorem readVbi_vbi (k : ℕ) : ∀ {x : ℕ}, x < 128 ^ (k + 1) → ∀ rest, readVbi (vbi k x ++ rest) = some (x, rest) := by
  induction k with
  | zero => exact fun hx rest => readVbi_last (by simpa using hx) rest
  | succ k ih =>
    intro x hx rest
    rw [vbi]
    split_ifs with hsmall
    · exact readVbi_last (by omega) rest
    · have hbyte : (UInt8.ofNat (x % 128 + 128)).toNat = x % 128 + 128 := toNat_ofNat (by omega)
      have hrest : x / 128 < 128 ^ (k + 1) := Nat.div_lt_of_lt_mul (by rw [← pow_succ']; exact hx)
      rw [List.cons_append, readVbi, hbyte, if_neg (by omega), ih hrest, Option.map_some]
      congr 2
      omega

/-- A number takes one byte more at most than the bound of its continuation. -/
theorem length_vbi_le (k x : ℕ) : (vbi k x).length ≤ k + 1 := by
  induction k generalizing x with
  | zero => exact le_rfl
  | succ k ih =>
    rw [vbi]
    split_ifs
    · exact Nat.succ_le_succ (Nat.zero_le _)
    · exact Nat.succ_le_succ (ih _)

/-- A number that ends does not ask for more bytes. -/
theorem vbi_succ (k : ℕ) : ∀ {x : ℕ}, x < 128 ^ (k + 1) → vbi (k + 1) x = vbi k x := by
  induction k with
  | zero =>
    intro x hx
    have hsmall : x / 128 = 0 := Nat.div_eq_of_lt (by simpa using hx)
    exact if_pos hsmall
  | succ k ih =>
    intro x hx
    have hrest : x / 128 < 128 ^ (k + 1) := Nat.div_lt_of_lt_mul (by rw [← pow_succ']; exact hx)
    have hunfold : ∀ j, vbi (j + 1) x =
        if x / 128 = 0 then [UInt8.ofNat (x % 128)] else UInt8.ofNat (x % 128 + 128) :: vbi j (x / 128) := fun _ => rfl
    rw [hunfold (k + 1), hunfold k, ih hrest]

@[simp] theorem length_num (n : ℕ) : (num n).length = 2 := rfl

theorem readNum_num {n : ℕ} (h : n < 65536) (rest : List UInt8) : readNum (num n ++ rest) = some (n, rest) := by
  simp only [num, List.cons_append, List.nil_append, readNum]
  rw [toNat_ofNat (by omega), toNat_ofNat (by omega), Nat.div_add_mod']

@[simp] theorem length_string (s : List UInt8) : (string s).length = s.length + 2 := by
  rw [string, List.length_append, length_num, Nat.add_comm]

/-- **A text is read back.** -/
theorem readString_string {s : List UInt8} (h : s.length < 65536) (rest : List UInt8) :
    readString (string s ++ rest) = some (s, rest) := by
  rw [readString, string, List.append_assoc, readNum_num h, Option.bind_some,
    if_pos (by rw [List.length_append]; exact Nat.le_add_right ..), List.take_left, List.drop_left]

end Wire
