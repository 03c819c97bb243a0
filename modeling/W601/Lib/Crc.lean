import Mathlib

/-!
# Reflected cyclic redundancy checks

A register of `w` bits takes in bytes, the low bit first: what is shifted out at the low end adds the
polynomial `poly`. A table of the 256 bytes takes in a byte at once.

* `crc`: the register behind some bytes, bit by bit.
* `byte_of_table`: a byte by way of the table.
-/

namespace Crc

variable {w : ℕ} (poly : BitVec w)

/-- One bit is shifted out. -/
def shift (v : BitVec w) : BitVec w := (v >>> 1) ^^^ (if v.getLsbD 0 then poly else 0#w)

/-- One byte is taken in. -/
def byte (v : BitVec w) (b : UInt8) : BitVec w := (shift poly)^[8] (v ^^^ b.toBitVec.setWidth w)

/-- The register behind some bytes. -/
def crc (v : BitVec w) (bs : List UInt8) : BitVec w := bs.foldl (byte poly) v

/-- A table of what the bytes do to an empty register. -/
def IsTable (table : ℕ → BitVec w) : Prop := ∀ i < 256, table i = (shift poly)^[8] (BitVec.ofNat w i)

variable {poly}

theorem shift_xor (x y : BitVec w) : shift poly (x ^^^ y) = shift poly x ^^^ shift poly y := by
  unfold shift
  rw [BitVec.ushiftRight_xor_distrib, BitVec.getLsbD_xor]
  have hcancel : ∀ a b : BitVec w, a ^^^ b = (a ^^^ poly) ^^^ (b ^^^ poly) := by
    intro a b
    rw [BitVec.xor_assoc, ← BitVec.xor_assoc poly, BitVec.xor_comm poly b, BitVec.xor_assoc b, BitVec.xor_self,
      BitVec.xor_zero]
  cases hx : x.getLsbD 0 with
  | false =>
    cases hy : y.getLsbD 0 with
    | false => simp
    | true => simp [BitVec.xor_assoc]
  | true =>
    cases hy : y.getLsbD 0 with
    | false =>
      simp only [Bool.xor_false, if_true, Bool.false_eq_true, if_false, BitVec.xor_zero]
      rw [BitVec.xor_assoc, BitVec.xor_comm (y >>> 1), BitVec.xor_assoc]
    | true => simpa using hcancel (x >>> 1) (y >>> 1)

theorem iterate_shift_xor (n : ℕ) : ∀ x y : BitVec w,
    (shift poly)^[n] (x ^^^ y) = (shift poly)^[n] x ^^^ (shift poly)^[n] y := by
  induction n with
  | zero => intro x y; rfl
  | succ n ih =>
    intro x y
    rw [Function.iterate_succ_apply, shift_xor, ih]
    rfl

/-- Zeros are shifted out without a trace. -/
theorem iterate_shift_zeros (n : ℕ) : ∀ x : BitVec w, (∀ i < n, x.getLsbD i = false) → (shift poly)^[n] x = x >>> n := by
  induction n with
  | zero => intro x _; simp
  | succ n ih =>
    intro x hx
    have hshift : shift poly x = x >>> 1 := by
      unfold shift
      rw [hx 0 (by omega)]
      simp
    have hnext : ∀ i < n, (x >>> 1).getLsbD i = false := by
      intro i hi
      rw [BitVec.getLsbD_ushiftRight]
      exact hx (1 + i) (by omega)
    rw [Function.iterate_succ_apply, hshift, ih _ hnext, ← BitVec.shiftRight_add, Nat.add_comm]

theorem getLsbD_low (w i : ℕ) : (BitVec.ofNat w 255).getLsbD i = (decide (i < w) && decide (i < 8)) := by
  rw [BitVec.getLsbD_ofNat]
  have hbit : Nat.testBit 255 i = decide (i < 8) := Nat.testBit_two_pow_sub_one 8 i
  rw [hbit]

/-- **A byte by way of the table.** -/
theorem byte_of_table {table : ℕ → BitVec w} (h : IsTable poly table) (hw : 8 ≤ w) (v : BitVec w) (b : UInt8) :
    byte poly v b = table ((v ^^^ b.toBitVec.setWidth w) &&& BitVec.ofNat w 255).toNat ^^^ (v >>> 8) := by
  set x := v ^^^ b.toBitVec.setWidth w with hx
  set low := x &&& BitVec.ofNat w 255 with hlow
  have hsplit : x = low ^^^ (x ^^^ low) := by
    rw [BitVec.xor_comm x low, ← BitVec.xor_assoc, BitVec.xor_self, BitVec.zero_xor]
  have hlt : low.toNat < 256 := by
    rw [hlow, BitVec.toNat_and]
    apply lt_of_le_of_lt Nat.and_le_right
    rw [BitVec.toNat_ofNat]
    exact lt_of_le_of_lt (Nat.mod_le _ _) (by decide)
  have hzeros : ∀ i < 8, (x ^^^ low).getLsbD i = false := by
    intro i hi
    rw [BitVec.getLsbD_xor, hlow, BitVec.getLsbD_and, getLsbD_low]
    simp [hi, show i < w by omega]
  have hhigh : (x ^^^ low) >>> 8 = v >>> 8 := by
    apply BitVec.eq_of_getLsbD_eq
    intro i _
    rw [BitVec.getLsbD_ushiftRight, BitVec.getLsbD_ushiftRight, BitVec.getLsbD_xor, hlow, BitVec.getLsbD_and, getLsbD_low,
      hx, BitVec.getLsbD_xor, BitVec.getLsbD_setWidth]
    simp
  have hentry : table low.toNat = (shift poly)^[8] low := by
    rw [h _ hlt, BitVec.ofNat_toNat, BitVec.setWidth_eq]
  calc byte poly v b = (shift poly)^[8] (low ^^^ (x ^^^ low)) := by rw [← hsplit]; rfl
    _ = (shift poly)^[8] low ^^^ (shift poly)^[8] (x ^^^ low) := iterate_shift_xor 8 _ _
    _ = table low.toNat ^^^ (v >>> 8) := by rw [hentry, iterate_shift_zeros 8 _ hzeros, hhigh]

end Crc
