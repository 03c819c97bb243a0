import Mathlib

/-!
# Numbers as bytes, the low one first

* `bytes`: a number in so many bytes; `value`: the number in some bytes.
* `value_bytes`, `bytes_value`: they undo each other.
-/

namespace Words

/-- The number `n` in `k` bytes. -/
def bytes : ℕ → ℕ → List UInt8
  | 0, _ => []
  | k + 1, n => UInt8.ofNat n :: bytes k (n / 256)

/-- The number in some bytes. -/
def value : List UInt8 → ℕ
  | [] => 0
  | b :: s => b.toNat + 256 * value s

@[simp] theorem length_bytes (k n : ℕ) : (bytes k n).length = k := by
  induction k generalizing n with
  | zero => rfl
  | succ k ih => rw [bytes, List.length_cons, ih]

theorem value_lt (s : List UInt8) : value s < 256 ^ s.length := by
  induction s with
  | nil => exact Nat.one_pos
  | cons b s ih =>
    have hb := b.toNat_lt
    rw [value, List.length_cons, pow_succ]
    omega

/-- What the bytes have no room for is lost. -/
theorem value_bytes_mod (k : ℕ) : ∀ n : ℕ, value (bytes k n) = n % 256 ^ k := by
  induction k with
  | zero =>
    intro n
    rw [pow_zero, Nat.mod_one]
    rfl
  | succ k ih =>
    intro n
    have hpow : 256 ^ (k + 1) = 256 * 256 ^ k := pow_succ' 256 k
    rw [bytes, value, ih, UInt8.toNat_ofNat', hpow, Nat.mod_mul]

/-- **A number is read back.** -/
theorem value_bytes (k : ℕ) {n : ℕ} (hn : n < 256 ^ k) : value (bytes k n) = n := by
  rw [value_bytes_mod, Nat.mod_eq_of_lt hn]

/-- **Some bytes are those of their number.** -/
theorem bytes_value (s : List UInt8) : bytes s.length (value s) = s := by
  induction s with
  | nil => rfl
  | cons b s ih =>
    have hb := b.toNat_lt
    have hlow : UInt8.ofNat (b.toNat + 256 * value s) = b := by
      rw [← UInt8.toNat_inj, UInt8.toNat_ofNat']
      omega
    have hhigh : (b.toNat + 256 * value s) / 256 = value s := by omega
    rw [List.length_cons, value, bytes, hlow, hhigh, ih]

end Words
