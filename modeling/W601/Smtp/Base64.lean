import W601.Smtp.Config
import W601.Wifi.Config

/-!
# The two Base64 encoders

`smtp_base64_encode` goes through its source bit by bit, and puts a letter whenever six bits have come
together; `str_base64_encode_len` takes three bytes at a time. The bytes of the SMTP client are the letters
of the WiFi configuration, and both are Base64 with its standard alphabet.

* `B64.bit_eq`: one bit, from the shift position and the bits of the sextet that is begun.
* `smtpBase64Encode_eq`: what the first encoder leaves in its target.
* `encoders_agree`: both encoders, for every source and every target.
-/

namespace W601.Smtp

open CMem

/-! ## The encoder in memory -/

/-- The variables of the loop of `smtp_base64_encode`, with the memory from the target on. -/
structure B64Mem where
  x : ℕ
  current : ℕ
  targetIdx : ℕ
  target : ℤ → UInt8

/-- One bit of the source. -/
def B64Mem.bit (s : B64Mem) (shift : Bool) : B64Mem :=
  let current := s.current ||| (shift.toNat <<< s.x)
  if s.x = 0 then
    -- `x` is 6 here, and the loop counts it down
    ⟨5, 0, s.targetIdx + 1, Function.update s.target s.targetIdx (base64Table.getD current 0)⟩
  else ⟨s.x - 1, current, s.targetIdx, s.target⟩

/-- One byte of the source, from its highest bit on. -/
def B64Mem.byte (s : B64Mem) (b : UInt8) : B64Mem :=
  [7, 6, 5, 4, 3, 2, 1, 0].foldl (fun s j => s.bit (b.toNat.testBit j)) s

/-- `smtp_base64_encode`: its answer, and the memory from the target on. Lengths are of 32 bits. -/
def smtpBase64EncodeMem (target : ℤ → UInt8) (targetLen : ℕ) (source : List UInt8) : ℕ × (ℤ → UInt8) :=
  let sourceLen := source.length % 2 ^ 32
  let longer := if 3 - sourceLen % 3 = 3 then 0 else 3 - sourceLen % 3
  let sourceLenB64 := (sourceLen + longer) % 2 ^ 32
  let len := sourceLenB64 * 4 % 2 ^ 32 / 3
  if targetLen < len then (0, target)
  else
    let bytes := (List.range sourceLenB64).map fun i => if i < sourceLen then source.getD i 0 else 0
    let s := bytes.foldl B64Mem.byte ⟨5, 0, 0, target⟩
    (len, (List.range' (len - longer) longer).foldl (fun (m : ℤ → UInt8) (i : ℕ) => Function.update m (i : ℤ) (UInt8.ofNat '='.toNat)) s.target)

/-! ## The bits -/

/-- **One bit.** While `x` counts down from 5, `current` holds the bits `v` of the sextet above the shift position. -/
theorem B64.bit_eq (x v : ℕ) (t : List UInt8) (b : Bool) :
    B64.bit ⟨x, v * 2 ^ (x + 1), t⟩ b =
      if x = 0 then ⟨5, 0, t ++ [base64Table.getD (2 * v + b.toNat) 0]⟩ else ⟨x - 1, (2 * v + b.toNat) * 2 ^ x, t⟩ := by
  have hb : b.toNat * 2 ^ x < 2 ^ (x + 1) := by
    have h2 : b.toNat < 2 := by cases b <;> decide
    rw [Nat.pow_succ, mul_comm]
    exact Nat.mul_lt_mul_of_pos_left h2 (Nat.two_pow_pos x)
  have hor : v * 2 ^ (x + 1) ||| b.toNat <<< x = (2 * v + b.toNat) * 2 ^ x := by
    rw [Nat.shiftLeft_eq, ← Nat.shiftLeft_eq v, ← Nat.shiftLeft_add_eq_or_of_lt hb, Nat.shiftLeft_eq]
    ring
  by_cases hx : x = 0
  · subst hx
    simp only [B64.bit, if_true, hor, pow_zero, mul_one]
  · simp only [B64.bit, if_neg hx, hor]

/-- The number that the bits make behind `v`. -/
def ofBits (v : ℕ) (l : List Bool) : ℕ := l.foldl (fun v b => 2 * v + b.toNat) v

/-- Bits that do not fill the sextet. -/
theorem B64.bits_begin (t : List UInt8) (l : List Bool) : ∀ x v : ℕ, l.length ≤ x →
    l.foldl B64.bit ⟨x, v * 2 ^ (x + 1), t⟩ = ⟨x - l.length, ofBits v l * 2 ^ (x - l.length + 1), t⟩ := by
  induction l with
  | nil => intro x v _; rfl
  | cons b l ih =>
    intro x v hx
    rw [List.length_cons] at hx
    obtain ⟨y, rfl⟩ := Nat.exists_eq_succ_of_ne_zero (show x ≠ 0 by omega)
    rw [List.foldl_cons, B64.bit_eq, if_neg (by omega), Nat.succ_sub_one, ih y _ (by omega), List.length_cons,
      Nat.succ_sub_succ]
    rfl

/-- **Bits that fill the sextet** put its letter. -/
theorem B64.bits_fill (t : List UInt8) (l : List Bool) : ∀ x v : ℕ, l.length = x + 1 →
    l.foldl B64.bit ⟨x, v * 2 ^ (x + 1), t⟩ = ⟨5, 0, t ++ [base64Table.getD (ofBits v l) 0]⟩ := by
  induction l with
  | nil => intro x v hx; simp at hx
  | cons b l ih =>
    intro x v hx
    rw [List.length_cons] at hx
    rw [List.foldl_cons, B64.bit_eq]
    by_cases h0 : x = 0
    · obtain rfl : l = [] := List.length_eq_zero_iff.1 (by omega)
      rw [if_pos h0]
      rfl
    · obtain ⟨y, rfl⟩ := Nat.exists_eq_succ_of_ne_zero h0
      rw [if_neg h0, Nat.succ_sub_one, ih y _ (by omega)]
      rfl

/-- The `n` bits of `b` from bit `k` on, the highest first. -/
def bitField (b k n : ℕ) : List Bool := (List.range n).reverse.map fun j => b.testBit (k + j)

theorem bitField_length (b k n : ℕ) : (bitField b k n).length = n := by simp [bitField]

theorem ofBits_bitField (b k n : ℕ) : ∀ v : ℕ, ofBits v (bitField b k n) = v * 2 ^ n + b / 2 ^ k % 2 ^ n := by
  induction n with
  | zero =>
    intro v
    simp [ofBits, bitField, Nat.mod_one]
  | succ n ih =>
    intro v
    have hcons : bitField b k (n + 1) = b.testBit (k + n) :: bitField b k n := by
      simp [bitField, List.range_succ]
    have hbit : (b.testBit (k + n)).toNat = b / 2 ^ k / 2 ^ n % 2 := by
      rw [Nat.toNat_testBit, Nat.div_div_eq_div_mul, ← Nat.pow_add]
    have hnext : ofBits v (bitField b k (n + 1)) = ofBits (2 * v + (b.testBit (k + n)).toNat) (bitField b k n) := by
      rw [hcons]
      rfl
    rw [hnext, ih, hbit, Nat.mod_pow_succ]
    ring

/-- A byte is the bits that fill the sextet, and those behind them. -/
theorem B64.byte_eq (s : B64) (b : UInt8) {n k : ℕ} (h : n + k = 8) :
    s.byte b = (bitField b.toNat 0 k).foldl B64.bit ((bitField b.toNat k n).foldl B64.bit s) := by
  have hsplit : ([7, 6, 5, 4, 3, 2, 1, 0].map fun j => b.toNat.testBit j) = bitField b.toNat k n ++ bitField b.toNat 0 k := by
    obtain rfl : k = 8 - n := by omega
    have hn : n ≤ 8 := by omega
    interval_cases n <;> rfl
  rw [← List.foldl_append, ← hsplit, List.foldl_map]
  rfl

/-- **A byte that fills the sextet**, with at most five bits behind that. -/
theorem B64.byte_fill {x k : ℕ} (h : x + 1 + k = 8) (hk : k ≤ 5) (v : ℕ) (t : List UInt8) (b : UInt8) :
    B64.byte ⟨x, v * 2 ^ (x + 1), t⟩ b = ⟨5 - k, b.toNat % 2 ^ k * 2 ^ (5 - k + 1),
      t ++ [base64Table.getD (v * 2 ^ (x + 1) + b.toNat / 2 ^ k) 0]⟩ := by
  have hlt : b.toNat / 2 ^ k < 2 ^ (x + 1) := by
    rw [Nat.div_lt_iff_lt_mul (Nat.two_pow_pos k), ← Nat.pow_add, h]
    exact b.toNat_lt
  have hfill := B64.bits_fill t (bitField b.toNat k (x + 1)) x v (bitField_length _ _ _)
  rw [ofBits_bitField, Nat.mod_eq_of_lt hlt] at hfill
  have hbegin := B64.bits_begin (t ++ [base64Table.getD (v * 2 ^ (x + 1) + b.toNat / 2 ^ k) 0]) (bitField b.toNat 0 k) 5 0
    (by rw [bitField_length]; exact hk)
  rw [ofBits_bitField, bitField_length, zero_mul, zero_mul, zero_add, pow_zero, Nat.div_one] at hbegin
  rw [B64.byte_eq _ b h, hfill, hbegin]

/-- **The last byte of a group** fills two sextets. -/
theorem B64.byte_last (v : ℕ) (t : List UInt8) (c : UInt8) :
    B64.byte ⟨1, v * 2 ^ 2, t⟩ c =
      ⟨5, 0, t ++ [base64Table.getD (v * 2 ^ 2 + c.toNat / 2 ^ 6) 0, base64Table.getD (c.toNat % 2 ^ 6) 0]⟩ := by
  have hlt : c.toNat / 2 ^ 6 < 2 ^ 2 := by
    have hc := c.toNat_lt
    omega
  have hfill := B64.bits_fill t (bitField c.toNat 6 2) 1 v rfl
  rw [ofBits_bitField, Nat.mod_eq_of_lt hlt] at hfill
  have hlast := B64.bits_fill (t ++ [base64Table.getD (v * 2 ^ 2 + c.toNat / 2 ^ 6) 0]) (bitField c.toNat 0 6) 5 0 rfl
  rw [ofBits_bitField, zero_mul, zero_add, pow_zero, Nat.div_one] at hlast
  have hk : 2 + 6 = 8 := rfl
  rw [B64.byte_eq _ c hk, hfill, hlast, List.append_assoc]
  rfl

/-- **A group of three bytes** puts four letters. -/
theorem B64.group (t : List UInt8) (a b c : UInt8) :
    [a, b, c].foldl B64.byte ⟨5, 0, t⟩ = ⟨5, 0, t ++ Base64.encode (base64Table.getD · 0) 0 [a, b, c]⟩ := by
  have h1 := B64.byte_fill (x := 5) (k := 2) rfl (by decide) 0 t a
  rw [zero_mul, zero_add] at h1
  simp only [List.foldl_cons, List.foldl_nil]
  rw [h1, B64.byte_fill (x := 3) (k := 4) rfl (by decide) (a.toNat % 2 ^ 2), B64.byte_last (b.toNat % 2 ^ 4)]
  simp only [Base64.encode, List.append_assoc]
  rfl

/-- **Whole groups** put their letters. -/
theorem B64.groups (k : ℕ) : ∀ (l : List UInt8) (t : List UInt8), l.length = 3 * k →
    l.foldl B64.byte ⟨5, 0, t⟩ = ⟨5, 0, t ++ Base64.encode (base64Table.getD · 0) 0 l⟩ := by
  induction k with
  | zero =>
    intro l t hl
    obtain rfl := List.length_eq_zero_iff.1 hl
    simp [Base64.encode]
  | succ k ih =>
    intro l t hl
    obtain ⟨a, l₁, rfl⟩ := List.exists_cons_of_length_pos (show 0 < l.length by omega)
    rw [List.length_cons] at hl
    obtain ⟨b, l₂, rfl⟩ := List.exists_cons_of_length_pos (show 0 < l₁.length by omega)
    rw [List.length_cons] at hl
    obtain ⟨c, rest, rfl⟩ := List.exists_cons_of_length_pos (show 0 < l₂.length by omega)
    rw [List.length_cons] at hl
    have hcat : a :: b :: c :: rest = [a, b, c] ++ rest := rfl
    have hencode : Base64.encode (base64Table.getD · 0) 0 (a :: b :: c :: rest) =
        Base64.encode (base64Table.getD · 0) 0 [a, b, c] ++ Base64.encode (base64Table.getD · 0) 0 rest := rfl
    rw [hencode, hcat, List.foldl_append, B64.group, ih rest _ (by omega), List.append_assoc]

/-- `longer` is the number of the pads. -/
theorem longer_eq (n : ℕ) : (if 3 - n % 3 = 3 then 0 else 3 - n % 3) = Base64.pads n := by
  unfold Base64.pads
  split_ifs with h <;> omega

theorem table_standard : ∀ i < 64, base64Table.getD i 0 = Base64.standard i := by decide

/-- **What the encoder makes**: Base64 with the standard alphabet, when it fits. -/
theorem smtpBase64Encode_eq (targetLen : ℕ) (source : List UInt8) :
    smtpBase64Encode targetLen source =
      if targetLen < 4 * ((source.length + 2) / 3) then none
      else some (Base64.encode Base64.standard Base64.standardPad source) := by
  have hlen : (source.length + Base64.pads source.length) * 4 / 3 = 4 * ((source.length + 2) / 3) := by
    unfold Base64.pads
    omega
  obtain ⟨front, back, h1, h2, h3⟩ := Base64.encode_padded (base64Table.getD · 0) Base64.standardPad 0 source
  have hfront : front.length = (source.length + Base64.pads source.length) * 4 / 3 - Base64.pads source.length := by
    have hcut := congrArg List.length h3
    rw [Base64.encode_length, List.length_append, List.length_replicate] at hcut
    omega
  have hgroups := B64.groups ((source.length + 2) / 3) (source ++ List.replicate (Base64.pads source.length) 0) [] (by
    rw [List.length_append, List.length_replicate]
    unfold Base64.pads
    omega)
  simp only [smtpBase64Encode, longer_eq, hlen]
  split_ifs
  · rfl
  · rw [hgroups, List.nil_append, h1, ← hlen, ← hfront, List.take_left, ← Base64.encode_congr table_standard, h3]
    rfl

/-! ## The memory -/

/-- The state of the loop with its letters in memory. -/
def B64.inMem (s : B64) (m : ℤ → UInt8) : B64Mem := ⟨s.x, s.current, s.target.length, store m 0 s.target⟩

theorem B64.inMem_bit (s : B64) (m : ℤ → UInt8) (b : Bool) : (s.inMem m).bit b = (s.bit b).inMem m := by
  unfold B64Mem.bit B64.bit B64.inMem
  dsimp only
  split_ifs
  · rw [List.length_append, store_append, zero_add]
    rfl
  · rfl

theorem B64.inMem_byte (s : B64) (m : ℤ → UInt8) (b : UInt8) : (s.inMem m).byte b = (s.byte b).inMem m := by
  simp only [B64Mem.byte, B64.byte, List.foldl_cons, List.foldl_nil, B64.inMem_bit]

theorem B64.inMem_bytes (m : ℤ → UInt8) (l : List UInt8) : ∀ s : B64,
    l.foldl B64Mem.byte (s.inMem m) = (l.foldl B64.byte s).inMem m := by
  induction l with
  | nil => intro s; rfl
  | cons b l ih =>
    intro s
    rw [List.foldl_cons, List.foldl_cons, B64.inMem_byte, ih]

/-- The loop that writes the pads. -/
theorem foldl_pads (c : UInt8) (k : ℕ) : ∀ (m : ℤ → UInt8) (p : ℕ),
    (List.range' p k).foldl (fun (m : ℤ → UInt8) (i : ℕ) => Function.update m (i : ℤ) c) m = store m p (List.replicate k c) := by
  induction k with
  | zero => intro m p; rfl
  | succ k ih =>
    intro m p
    rw [List.range'_succ, List.foldl_cons, ih, List.replicate_succ, store]
    push_cast
    rfl

/-- The bytes that the loop goes through. -/
theorem bytes_eq (source : List UInt8) (k : ℕ) :
    ((List.range (source.length + k)).map fun i => if i < source.length then source.getD i 0 else 0) =
      source ++ List.replicate k 0 := by
  apply List.ext_getElem
  · simp
  · intro i h1 h2
    rw [List.getElem_map, List.getElem_range]
    by_cases hi : i < source.length
    · rw [if_pos hi, List.getElem_append_left hi, List.getD_eq_getElem _ _ hi]
    · rw [if_neg hi, List.getElem_append_right (by omega), List.getElem_replicate]

/-- **The encoder in memory** answers the number of the letters and leaves them in the target, or answers 0. -/
theorem smtpBase64EncodeMem_eq (target : ℤ → UInt8) (targetLen : ℕ) {source : List UInt8} (h : source.length < 2 ^ 29) :
    smtpBase64EncodeMem target targetLen source =
      match smtpBase64Encode targetLen source with
      | none => (0, target)
      | some r => (r.length, store target 0 r) := by
  have hpads : Base64.pads source.length < 3 := Nat.mod_lt _ (by decide)
  have h1 : source.length % 2 ^ 32 = source.length := Nat.mod_eq_of_lt (by omega)
  have h2 : (source.length + Base64.pads source.length) % 2 ^ 32 = source.length + Base64.pads source.length :=
    Nat.mod_eq_of_lt (by omega)
  have h3 : (source.length + Base64.pads source.length) * 4 % 2 ^ 32 = (source.length + Base64.pads source.length) * 4 :=
    Nat.mod_eq_of_lt (by omega)
  simp only [smtpBase64EncodeMem, smtpBase64Encode, longer_eq, h1, h2, h3]
  split_ifs with hlt
  · rfl
  · have hstart : (⟨5, 0, 0, target⟩ : B64Mem) = B64.inMem ⟨5, 0, []⟩ target := rfl
    have hgroups := B64.groups ((source.length + 2) / 3) (source ++ List.replicate (Base64.pads source.length) 0) [] (by
      rw [List.length_append, List.length_replicate]
      unfold Base64.pads
      omega)
    rw [bytes_eq, hstart, B64.inMem_bytes, foldl_pads, hgroups, List.nil_append]
    set l := Base64.encode (base64Table.getD · 0) 0 (source ++ List.replicate (Base64.pads source.length) 0) with hl
    have hlen : l.length = (source.length + Base64.pads source.length) * 4 / 3 := by
      rw [hl, Base64.encode_length, List.length_append, List.length_replicate]
      unfold Base64.pads
      omega
    have hle : Base64.pads source.length ≤ (source.length + Base64.pads source.length) * 4 / 3 := by
      unfold Base64.pads
      omega
    set n := (source.length + Base64.pads source.length) * 4 / 3
    -- the pads are written over the last letters
    have hsplit : store target 0 l = store (store target 0 (l.take (n - Base64.pads source.length))) 
        (n - Base64.pads source.length : ℕ) (l.drop (n - Base64.pads source.length)) := by
      conv_lhs => rw [← List.take_append_drop (n - Base64.pads source.length) l]
      rw [store_append, List.length_take, hlen, Nat.min_eq_left (Nat.sub_le _ _), zero_add]
    have hcut : (l.take (n - Base64.pads source.length)).length = n - Base64.pads source.length := by
      rw [List.length_take, hlen]
      omega
    refine Prod.ext ?_ ?_
    · simp only [List.length_append, List.length_replicate, hcut]
      omega
    · simp only [B64.inMem]
      rw [hsplit, store_store (by rw [List.length_drop, List.length_replicate]; omega), store_append, hcut, zero_add]

/-! ## Both encoders -/

/-- **The two encoders agree**, with each other and with the standard: `smtp_base64_encode` answers the number of the letters
that `str_base64_encode_len` writes in front of its terminator, and writes the same letters; a target that is too short is left
alone. -/
theorem encoders_agree {x : List UInt8} (hx : x.length < 2 ^ 29) (target : ℤ → UInt8) (targetLen : ℕ) :
    ∃ letters, letters = Base64.encode Base64.standard Base64.standardPad x ∧ letters.length = 4 * ((x.length + 2) / 3) ∧
      (∀ (out : ℤ) (m : ℤ → UInt8), Wifi.strBase64EncodeLen x out m = store m out (letters ++ [0])) ∧
      smtpBase64EncodeMem target targetLen x =
        if targetLen < 4 * ((x.length + 2) / 3) then (0, target) else (letters.length, store target 0 letters) := by
  refine ⟨_, rfl, Base64.encode_length _ _ _, fun out m => ?_, ?_⟩
  · have hletter : ∀ i < 64, Wifi.letter i = Base64.standard i := table_standard
    rw [Wifi.strBase64EncodeLen_eq, Base64.encode_congr hletter]
    rfl
  · rw [smtpBase64EncodeMem_eq target targetLen hx, smtpBase64Encode_eq]
    split_ifs
    · rfl
    · rfl

/-- Four bytes, and a target of eight. -/
theorem encoders_agree_four :
    Base64.encode Base64.standard Base64.standardPad [1, 2, 0, 255] = text "AQIA/w==" ∧
      smtpBase64EncodeMem (fun _ => 0xA5) 8 [1, 2, 0, 255] = (8, store (fun _ => 0xA5) 0 (text "AQIA/w==")) := by
  have hletters : Base64.encode Base64.standard Base64.standardPad [1, 2, 0, 255] = text "AQIA/w==" := by decide
  obtain ⟨letters, hstd, -, -, hmem⟩ := encoders_agree (x := [1, 2, 0, 255]) (by decide) (fun _ => 0xA5) 8
  rw [hletters] at hstd
  subst hstd
  exact ⟨hletters, hmem⟩

end W601.Smtp
