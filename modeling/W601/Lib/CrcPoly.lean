import W601.Lib.Crc

/-!
# Cyclic redundancy checks as remainders

A register stands for a polynomial with coefficients 0 and 1, its low bit for the highest power. A byte stands for one
too, and a message for that of its bytes, the first one at the highest powers.

* `toPoly_crc`: the register behind some bytes is the remainder of the message, shifted by the width of the register, with
  the start value in front of it.
-/

namespace Crc

open Polynomial

variable {w : ℕ}

/-- The polynomial of a register. -/
noncomputable def toPoly (v : BitVec w) : (ZMod 2)[X] := ∑ k ∈ Finset.range w, if v.getMsbD k then X ^ k else 0

/-- The generator, with its highest power. -/
noncomputable def gen (poly : BitVec w) : (ZMod 2)[X] := X ^ w + toPoly poly

/-- The polynomial of a message. -/
noncomputable def message (bs : List UInt8) : (ZMod 2)[X] := bs.foldl (fun m b => X ^ 8 * m + toPoly b.toBitVec) 0

/-! ## Registers -/

theorem coeff_ite_pow (c : Bool) (n k : ℕ) :
    (if c then (X : (ZMod 2)[X]) ^ n else 0).coeff k = if k = n then (if c then 1 else 0) else 0 := by
  cases c with
  | false => simp
  | true => exact coeff_X_pow n k

theorem coeff_toPoly (v : BitVec w) (k : ℕ) : (toPoly v).coeff k = if v.getMsbD k then 1 else 0 := by
  rw [toPoly, finsetSum_coeff]
  simp only [coeff_ite_pow]
  rw [Finset.sum_ite_eq]
  split_ifs with hk hbit hbit
  · rfl
  · rfl
  · -- a power beyond the width has no bit
    rw [Finset.mem_range, not_lt] at hk
    rw [BitVec.getMsbD_of_ge v k hk] at hbit
    exact absurd hbit (by decide)
  · rfl

theorem degree_toPoly (v : BitVec w) : (toPoly v).degree < w := by
  rw [degree_lt_iff_coeff_zero]
  intro k hk
  rw [coeff_toPoly, BitVec.getMsbD_of_ge v k hk, if_neg (by decide)]

theorem monic_gen (poly : BitVec w) : (gen poly).Monic := monic_X_pow_add (degree_toPoly poly)

theorem degree_gen (poly : BitVec w) : (gen poly).degree = w := by
  rw [gen, degree_add_eq_left_of_degree_lt, degree_X_pow]
  rw [degree_X_pow]
  exact degree_toPoly poly

/-- Exclusive or adds. -/
theorem toPoly_xor (x y : BitVec w) : toPoly (x ^^^ y) = toPoly x + toPoly y := by
  ext k
  rw [coeff_add, coeff_toPoly, coeff_toPoly, coeff_toPoly, BitVec.getMsbD_xor]
  cases x.getMsbD k <;> cases y.getMsbD k <;> decide

/-- A shift multiplies, but for the bit that is shifted out. -/
theorem X_mul_toPoly (hw : 0 < w) (v : BitVec w) :
    X * toPoly v = toPoly (v >>> 1) + if v.getLsbD 0 then X ^ w else 0 := by
  have hlow : v.getLsbD 0 = v.getMsbD (w - 1) := by
    rw [BitVec.getMsbD_eq_getLsbD]
    simp [hw]
  ext k
  rw [coeff_add, coeff_ite_pow, coeff_toPoly, BitVec.getMsbD_ushiftRight]
  cases k with
  | zero =>
    rw [coeff_X_mul_zero, if_neg hw.ne]
    simp
  | succ k =>
    rw [coeff_X_mul, coeff_toPoly]
    by_cases hk : k + 1 = w
    · have hindex : w - 1 = k := by omega
      rw [hlow, hindex]
      simp [hk]
    · rcases Nat.lt_or_ge (k + 1) w with hlt | hge
      · simp [hk, hlt]
      · -- beyond the width there is no bit
        have hbit : v.getMsbD k = false := BitVec.getMsbD_of_ge v k (by omega)
        simp [hk, hbit]

/-- A byte in the low bits of a register. -/
theorem toPoly_setWidth (hw : 8 ≤ w) (b : BitVec 8) : toPoly (b.setWidth w) = X ^ (w - 8) * toPoly b := by
  ext k
  rw [coeff_toPoly, coeff_X_pow_mul', BitVec.getMsbD_setWidth, coeff_toPoly]
  by_cases hk : w - 8 ≤ k
  · have hindex : k + 8 - w = k - (w - 8) := by omega
    simp [hk, hindex]
  · simp [hk]

/-! ## Remainders -/

section Remainder

variable {poly : BitVec w}

/-- The highest power of the generator is the rest of it. -/
theorem mk_X_pow_width : AdjoinRoot.mk (gen poly) (X ^ w) = AdjoinRoot.mk (gen poly) (toPoly poly) := by
  rw [AdjoinRoot.mk_eq_mk, CharTwo.sub_eq_add]
  exact dvd_rfl

/-- A bit that is shifted out multiplies the residue. -/
theorem mk_shift (hw : 0 < w) (v : BitVec w) :
    AdjoinRoot.mk (gen poly) (toPoly (shift poly v)) = AdjoinRoot.mk (gen poly) (X * toPoly v) := by
  rw [X_mul_toPoly hw, shift, toPoly_xor, map_add, map_add]
  cases v.getLsbD 0 with
  | false =>
    have hzero : toPoly (0#w) = 0 := by
      ext k
      simp [coeff_toPoly]
    simp only [Bool.false_eq_true, if_false, hzero]
  | true => simp only [if_true, mk_X_pow_width]

theorem mk_iterate_shift (hw : 0 < w) (n : ℕ) (v : BitVec w) :
    AdjoinRoot.mk (gen poly) (toPoly ((shift poly)^[n] v)) = AdjoinRoot.mk (gen poly) (X ^ n * toPoly v) := by
  induction n generalizing v with
  | zero => simp
  | succ n ih => rw [Function.iterate_succ_apply, ih, map_mul, mk_shift hw, ← map_mul, ← mul_assoc, ← pow_succ]

/-- **A byte** is added behind the register. -/
theorem mk_byte (hw : 8 ≤ w) (v : BitVec w) (b : UInt8) :
    AdjoinRoot.mk (gen poly) (toPoly (byte poly v b)) =
      AdjoinRoot.mk (gen poly) (X ^ 8 * toPoly v + X ^ w * toPoly b.toBitVec) := by
  have hwidth : (X : (ZMod 2)[X]) ^ 8 * X ^ (w - 8) = X ^ w := by rw [← pow_add, Nat.add_sub_of_le hw]
  rw [byte, mk_iterate_shift (by omega), toPoly_xor, toPoly_setWidth hw, mul_add, ← mul_assoc, hwidth]

theorem message_append (bs : List UInt8) (b : UInt8) :
    message (bs ++ [b]) = X ^ 8 * message bs + toPoly b.toBitVec := by
  rw [message, List.foldl_append]
  rfl

/-- The register behind some bytes and the message have one residue. -/
theorem mk_crc (hw : 8 ≤ w) (v : BitVec w) (bs : List UInt8) :
    AdjoinRoot.mk (gen poly) (toPoly (crc poly v bs)) =
      AdjoinRoot.mk (gen poly) (X ^ (8 * bs.length) * toPoly v + X ^ w * message bs) := by
  induction bs using List.reverseRecOn with
  | nil => simp [crc, message]
  | append_singleton bs b ih =>
    have hsplit : crc poly v (bs ++ [b]) = byte poly (crc poly v bs) b := List.foldl_append
    have hlen : 8 * (bs ++ [b]).length = 8 + 8 * bs.length := by
      rw [List.length_append, List.length_singleton]
      omega
    have hpoly : X ^ 8 * (X ^ (8 * bs.length) * toPoly v + X ^ w * message bs) + X ^ w * toPoly b.toBitVec =
        X ^ (8 * (bs ++ [b]).length) * toPoly v + X ^ w * message (bs ++ [b]) := by
      rw [hlen, message_append]
      ring
    rw [hsplit, mk_byte hw, map_add, map_mul, ih, ← map_mul, ← map_add, hpoly]

/-- **The register behind some bytes is the remainder** of the message and of the start value in front of it. -/
theorem toPoly_crc (hw : 8 ≤ w) (v : BitVec w) (bs : List UInt8) :
    toPoly (crc poly v bs) = (X ^ (8 * bs.length) * toPoly v + X ^ w * message bs) %ₘ gen poly := by
  have hself : toPoly (crc poly v bs) %ₘ gen poly = toPoly (crc poly v bs) := by
    rw [modByMonic_eq_self_iff (monic_gen poly), degree_gen]
    exact degree_toPoly _
  rw [← hself]
  exact modByMonic_eq_of_dvd_sub (monic_gen poly) (AdjoinRoot.mk_eq_mk.1 (mk_crc hw v bs))

end Remainder

end Crc
