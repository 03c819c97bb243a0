import Mathlib

/-!
# Base64

Three bytes as four letters of an alphabet, with one or two pads for a last group that is short. The
alphabet is any function `enc` from the numbers below 64 to letters; `val` reads a letter back.

* `encode_length`: four letters for every group that is begun.
* `encode_last`: where the pads stand.
* `decode_encode`: what is read back is what was written, and zeros for the pads.
-/

namespace Base64

variable {α : Type*}

/-- The number of pads behind `n` bytes. -/
def pads (n : ℕ) : ℕ := (3 - n % 3) % 3

/-- The letters for some bytes. -/
def encode (enc : ℕ → α) (pad : α) : List UInt8 → List α
  | a :: b :: c :: rest =>
    enc (a.toNat / 4) :: enc (a.toNat % 4 * 16 + b.toNat / 16) :: enc (b.toNat % 16 * 4 + c.toNat / 64) ::
      enc (c.toNat % 64) :: encode enc pad rest
  | [a, b] => [enc (a.toNat / 4), enc (a.toNat % 4 * 16 + b.toNat / 16), enc (b.toNat % 16 * 4), pad]
  | [a] => [enc (a.toNat / 4), enc (a.toNat % 4 * 16), pad, pad]
  | [] => []

/-- The number that four letters stand for. -/
def triple (val : α → ℕ) (w x y z : α) : ℕ := val w * 2 ^ 18 + val x * 2 ^ 12 + val y * 2 ^ 6 + val z

/-- The three bytes of a number of 24 bits. -/
def bytes (t : ℕ) : List UInt8 := [UInt8.ofNat (t / 2 ^ 16), UInt8.ofNat (t / 2 ^ 8), UInt8.ofNat t]

/-- The bytes for some letters, three for every four letters. -/
def decode (val : α → ℕ) : List α → List UInt8
  | w :: x :: y :: z :: rest => bytes (triple val w x y z) ++ decode val rest
  | _ => []

/-- The letters are read back as they were written. -/
structure Reads (enc : ℕ → α) (pad : α) (val : α → ℕ) : Prop where
  letter : ∀ i < 64, val (enc i) = i
  zero : val pad = 0
  ne : ∀ i < 64, enc i ≠ pad

/-- The alphabet of the standard: upper case, lower case, digits, `+` and `/`. -/
def standard (i : ℕ) : UInt8 :=
  if i < 26 then UInt8.ofNat (65 + i)
  else if i < 52 then UInt8.ofNat (97 + (i - 26))
  else if i < 62 then UInt8.ofNat (48 + (i - 52))
  else if i = 62 then 43
  else 47

/-- The pad of the standard. -/
def standardPad : UInt8 := 61

variable {enc : ℕ → α} {pad : α} {val : α → ℕ}

theorem pads_add_three (n : ℕ) : pads (n + 3) = pads n := by
  unfold pads
  omega

/-- Only the first 64 letters of an alphabet are used. -/
theorem encode_congr {enc' : ℕ → α} (h : ∀ i < 64, enc i = enc' i) (pad : α) (b : List UInt8) :
    encode enc pad b = encode enc' pad b := by
  fun_induction encode enc pad b with
  | case1 a b c rest ih =>
    have ha := a.toNat_lt
    have hb := b.toNat_lt
    have hc := c.toNat_lt
    rw [encode, ih, h _ (by omega), h _ (by omega), h _ (by omega), h _ (by omega)]
  | case2 a b =>
    have ha := a.toNat_lt
    have hb := b.toNat_lt
    rw [encode, h _ (by omega), h _ (by omega), h _ (by omega)]
  | case3 a =>
    have ha := a.toNat_lt
    rw [encode, h _ (by omega), h _ (by omega)]
  | case4 => rfl

theorem encode_length (enc : ℕ → α) (pad : α) (b : List UInt8) : (encode enc pad b).length = 4 * ((b.length + 2) / 3) := by
  fun_induction encode enc pad b with
  | case1 a b c rest ih =>
    simp only [List.length_cons, ih]
    omega
  | case2 a b => simp
  | case3 a => simp
  | case4 => rfl

/-- What the letters are. -/
theorem mem_encode {enc : ℕ → α} {pad : α} {b : List UInt8} {x : α} (h : x ∈ encode enc pad b) :
    x = pad ∨ ∃ i < 64, x = enc i := by
  fun_induction encode enc pad b with
  | case1 a b c rest ih =>
    have ha := a.toNat_lt
    have hb := b.toNat_lt
    have hc := c.toNat_lt
    simp only [List.mem_cons] at h
    obtain rfl | rfl | rfl | rfl | h := h
    · exact Or.inr ⟨_, by omega, rfl⟩
    · exact Or.inr ⟨_, by omega, rfl⟩
    · exact Or.inr ⟨_, by omega, rfl⟩
    · exact Or.inr ⟨_, by omega, rfl⟩
    · exact ih h
  | case2 a b =>
    have ha := a.toNat_lt
    have hb := b.toNat_lt
    simp only [List.mem_cons, List.not_mem_nil, or_false] at h
    obtain rfl | rfl | rfl | rfl := h
    · exact Or.inr ⟨_, by omega, rfl⟩
    · exact Or.inr ⟨_, by omega, rfl⟩
    · exact Or.inr ⟨_, by omega, rfl⟩
    · exact Or.inl rfl
  | case3 a =>
    have ha := a.toNat_lt
    simp only [List.mem_cons, List.not_mem_nil, or_false] at h
    obtain rfl | rfl | rfl | rfl := h
    · exact Or.inr ⟨_, by omega, rfl⟩
    · exact Or.inr ⟨_, by omega, rfl⟩
    · exact Or.inl rfl
    · exact Or.inl rfl
  | case4 => simp at h

/-- Three bytes are what is left of the number that they make. -/
theorem bytes_eq {t : ℕ} {a b c : UInt8} (h : t = a.toNat * 2 ^ 16 + b.toNat * 2 ^ 8 + c.toNat) : bytes t = [a, b, c] := by
  have ha := a.toNat_lt
  have hb := b.toNat_lt
  have hc := c.toNat_lt
  have hbyte : ∀ {n : ℕ} {x : UInt8}, n % 256 = x.toNat → UInt8.ofNat n = x := by
    intro n x hn
    rw [← UInt8.toNat_inj, UInt8.toNat_ofNat']
    exact hn
  unfold bytes
  rw [hbyte (x := a) (by omega), hbyte (x := b) (by omega), hbyte (x := c) (by omega)]

/-- **What is read back is what was written**, with zeros for the pads. -/
theorem decode_encode (h : Reads enc pad val) (b : List UInt8) :
    decode val (encode enc pad b) = b ++ List.replicate (pads b.length) 0 := by
  fun_induction encode enc pad b with
  | case1 a b c rest ih =>
    have ha := a.toNat_lt
    have hb := b.toNat_lt
    have hc := c.toNat_lt
    have hpads : pads (a :: b :: c :: rest).length = pads rest.length := pads_add_three rest.length
    have htriple : triple val (enc (a.toNat / 4)) (enc (a.toNat % 4 * 16 + b.toNat / 16))
        (enc (b.toNat % 16 * 4 + c.toNat / 64)) (enc (c.toNat % 64)) =
        a.toNat * 2 ^ 16 + b.toNat * 2 ^ 8 + c.toNat := by
      unfold triple
      rw [h.letter _ (by omega), h.letter _ (by omega), h.letter _ (by omega), h.letter _ (by omega)]
      omega
    rw [decode, bytes_eq htriple, ih, hpads]
    rfl
  | case2 a b =>
    have ha := a.toNat_lt
    have hb := b.toNat_lt
    have htriple : triple val (enc (a.toNat / 4)) (enc (a.toNat % 4 * 16 + b.toNat / 16))
        (enc (b.toNat % 16 * 4)) pad = a.toNat * 2 ^ 16 + b.toNat * 2 ^ 8 + (0 : UInt8).toNat := by
      unfold triple
      rw [h.letter _ (by omega), h.letter _ (by omega), h.letter _ (by omega), h.zero]
      simp only [UInt8.toNat_zero]
      omega
    rw [decode, bytes_eq htriple]
    rfl
  | case3 a =>
    have ha := a.toNat_lt
    have htriple : triple val (enc (a.toNat / 4)) (enc (a.toNat % 4 * 16)) pad pad =
        a.toNat * 2 ^ 16 + (0 : UInt8).toNat * 2 ^ 8 + (0 : UInt8).toNat := by
      unfold triple
      rw [h.letter _ (by omega), h.letter _ (by omega), h.zero]
      simp only [UInt8.toNat_zero]
      omega
    rw [decode, bytes_eq htriple]
    rfl
  | case4 => rfl

/-- **The pads** are the last letters, one or two of them. -/
theorem encode_last (h : Reads enc pad val) (b : List UInt8) (hb : b ≠ []) :
    ∃ front x y, encode enc pad b = front ++ [x, y] ∧ (y = pad ↔ 0 < pads b.length) ∧ (x = pad ↔ 1 < pads b.length) := by
  fun_induction encode enc pad b with
  | case1 a b c rest ih =>
    have hpads : pads (a :: b :: c :: rest).length = pads rest.length := pads_add_three rest.length
    rw [hpads]
    have hb := b.toNat_lt
    have hc := c.toNat_lt
    by_cases hrest : rest = []
    · subst hrest
      refine ⟨[_, _], _, _, rfl, ?_, ?_⟩
      · simpa [pads] using h.ne (c.toNat % 64) (by omega)
      · simpa [pads] using h.ne (b.toNat % 16 * 4 + c.toNat / 64) (by omega)
    · obtain ⟨front, x, y, heq, hy, hx⟩ := ih hrest
      exact ⟨_ :: _ :: _ :: _ :: front, x, y, by rw [heq]; rfl, hy, hx⟩
  | case2 a b =>
    have hb := b.toNat_lt
    refine ⟨[_, _], _, _, rfl, ?_, ?_⟩
    · simp [pads]
    · simpa [pads] using h.ne (b.toNat % 16 * 4) (by omega)
  | case3 a => exact ⟨[_, _], _, _, rfl, by simp [pads], by simp [pads]⟩
  | case4 => exact absurd rfl hb

/-- **Zeros and pads**: Base64 is that of the bytes with zeros for a last group that is short, with pads for as many
letters at its end. -/
theorem encode_padded (enc : ℕ → α) (pad pad' : α) (b : List UInt8) :
    ∃ front back, encode enc pad' (b ++ List.replicate (pads b.length) 0) = front ++ back ∧
      back.length = pads b.length ∧ encode enc pad b = front ++ List.replicate (pads b.length) pad := by
  fun_induction encode enc pad b with
  | case1 a b c rest ih =>
    obtain ⟨front, back, h1, h2, h3⟩ := ih
    have hpads : pads (a :: b :: c :: rest).length = pads rest.length := pads_add_three rest.length
    rw [hpads, h3]
    refine ⟨_ :: _ :: _ :: _ :: front, back, ?_, h2, rfl⟩
    rw [List.cons_append, List.cons_append, List.cons_append, encode, h1]
    rfl
  | case2 a b => exact ⟨[_, _, _], [_], rfl, rfl, rfl⟩
  | case3 a => exact ⟨[_, _], [_, _], rfl, rfl, rfl⟩
  | case4 => exact ⟨[], [], rfl, rfl, rfl⟩

end Base64
