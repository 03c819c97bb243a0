import W601.Mqtt.Receive

/-!
# A packet comes in whole

* `packetRead_frame`: what a read of a packet leaves in the buffer, and what of the packet it leaves in the socket.
-/

namespace W601.Mqtt.Recv

open CMem

variable {ω : Type*}

/-- A packet on the wire. -/
def frame (first : UInt8) (body : List UInt8) : List UInt8 := first :: (Wire.vbi 3 body.length ++ body)

/-- The length of the fixed header. -/
def headSize (body : List UInt8) : ℕ := 1 + (Wire.vbi 3 body.length).length

/-- Some bytes come in. -/
def arrive (bytes : List UInt8) : List Arrival := bytes.map .byte

/-! ## Reading -/

section Reading

variable {bytes : List UInt8} {rest : List Arrival} {c : Client ω} {m : ℤ → UInt8} {s : List UInt8} {i : ℤ}

theorem socketRead_arrive (rest : List Arrival) : ∀ bytes : List UInt8, socketRead bytes.length (arrive bytes ++ rest) = (bytes, none, rest)
  | [] => by cases rest <;> rfl
  | b :: bytes => by
    have hrest := socketRead_arrive rest bytes
    rw [List.length_cons, arrive, List.map_cons, List.cons_append, socketRead]
    rw [arrive] at hrest
    rw [hrest]

/-- A read of bytes that are there. -/
theorem readAt_arrive {n : ℕ} (hn : n = bytes.length) (hin : c.incoming = arrive bytes ++ rest) (i : ℕ) :
    readAt n i c = (none, { c with rx := store c.rx i bytes, incoming := rest }) := by
  rw [readAt, hin, hn, socketRead_arrive]

@[simp] theorem length_peek (m : ℤ → UInt8) (i : ℤ) (n : ℕ) : (peek m i n).length = n := by
  rw [peek, List.length_map, List.length_range]

theorem peek_append (m : ℤ → UInt8) (i : ℤ) (a b : ℕ) : peek m i (a + b) = peek m i a ++ peek m (i + a) b := by
  rw [peek, List.range_add, List.map_append, List.map_map]
  congr 1
  refine List.map_congr_left fun k _ => ?_
  rw [Function.comp_apply, Nat.cast_add, add_assoc]

/-- The bytes that are there. -/
theorem peek_of_at (h : At m i s) : peek m i s.length = s := by
  apply List.ext_getElem (length_peek _ _ _)
  intro k h1 h2
  simp only [peek, List.getElem_map, List.getElem_range, h.getElem k h2]

theorem peek_of_at_append {t : List UInt8} (h : At m i (s ++ t)) : peek m i s.length = s :=
  peek_of_at ((at_append m s t i).1 h).1

end Reading

/-! ## The fixed header -/

section Header

variable {c : Client ω} {m : ℤ → UInt8}

theorem high_iff (b : UInt8) : b.toNat &&& 0x80 = 0 ↔ b.toNat < 128 := by
  have hlt := b.toNat_lt
  have hbit : b.toNat &&& 0x80 = (b.toNat.testBit 7).toNat * 2 ^ 7 := Nat.and_two_pow b.toNat 7
  rw [hbit, Nat.testBit_eq_decide_div_mod_eq]
  by_cases hone : b.toNat / 2 ^ 7 % 2 = 1
  · rw [decide_eq_true hone]
    exact iff_of_false (by decide) (by omega)
  · rw [decide_eq_false hone]
    exact iff_of_true (by decide) (by omega)

theorem low_eq (b : UInt8) : b.toNat &&& 0x7F = b.toNat % 128 := Nat.and_two_pow_sub_one_eq_mod b.toNat 7

/-- The last byte of a number. -/
theorem decodeVbi_last {k x : ℕ} (hk : k ≤ 3) (hx : x < 128) (rest : List UInt8) :
    decodeVbi k (UInt8.ofNat (x % 128) :: rest) = some (x * 128 ^ k, 1) := by
  have hbyte : (UInt8.ofNat (x % 128)).toNat = x := by rw [Nat.mod_eq_of_lt hx, Wire.toNat_ofNat (by omega)]
  have hlow : ¬ (UInt8.ofNat (x % 128)).toNat &&& 0x80 ≠ 0 := not_not.2 ((high_iff _).2 (by omega))
  rw [decodeVbi, if_neg (by omega), if_neg hlow, low_eq, hbyte, Nat.mod_eq_of_lt hx]

/-- A number that has been written is decoded. -/
theorem decodeVbi_vbi (rest : List UInt8) : ∀ {j k x : ℕ}, k + j ≤ 3 → x < 128 ^ (j + 1) →
    decodeVbi k (Wire.vbi j x ++ rest) = some (x * 128 ^ k, (Wire.vbi j x).length) := by
  intro j
  induction j with
  | zero =>
    intro k x hk hx
    exact decodeVbi_last (by omega) (by simpa using hx) rest
  | succ j ih =>
    intro k x hk hx
    rw [Wire.vbi]
    split_ifs with hsmall
    · exact decodeVbi_last (by omega) (by omega) rest
    · have hbyte : (UInt8.ofNat (x % 128 + 128)).toNat = x % 128 + 128 := Wire.toNat_ofNat (by omega)
      have hhigh : (UInt8.ofNat (x % 128 + 128)).toNat &&& 0x80 ≠ 0 := fun h => by
        have hlt := (high_iff _).1 h
        omega
      have hrest : x / 128 < 128 ^ (j + 1) := Nat.div_lt_of_lt_mul (by rw [← pow_succ']; exact hx)
      have hmod : (x % 128 + 128) % 128 = x % 128 := by omega
      rw [List.cons_append, decodeVbi, if_neg (by omega), if_pos hhigh, ih (by omega) hrest, Option.map_some, low_eq, hbyte,
        hmod, List.length_cons]
      congr 2
      calc x % 128 * 128 ^ k + x / 128 * 128 ^ (k + 1) = (x % 128 + 128 * (x / 128)) * 128 ^ k := by rw [pow_succ]; ring
        _ = x * 128 ^ k := by rw [Nat.mod_add_div]

theorem vbi_cons (j x : ℕ) : ∃ b t, Wire.vbi j x = b :: t := by
  cases j <;> rw [Wire.vbi]
  · exact ⟨_, _, rfl⟩
  · split_ifs
    · exact ⟨_, _, rfl⟩
    · exact ⟨_, _, rfl⟩

/-- The bytes of a length are read one by one. -/
theorem readLens_vbi {rest : List Arrival} : ∀ {j x : ℕ} {i : ℤ} {c : Client ω} {b : UInt8} {t : List UInt8},
    Wire.vbi j x = b :: t → x < 128 ^ (j + 1) → c.rx (1 + i) = b → (c.headerLen : ℤ) = 2 + i →
    c.incoming = arrive t ++ rest →
    readLens (j + 1) i c = (none, { c with
      rx := store c.rx c.headerLen t
      headerLen := c.headerLen + t.length
      incoming := rest }) := by
  have hend : ∀ {fuel x : ℕ} {i : ℤ} {c : Client ω} {b : UInt8} {t : List UInt8}, [UInt8.ofNat (x % 128)] = b :: t →
      c.rx (1 + i) = b → c.incoming = arrive t ++ rest → readLens (fuel + 1) i c = (none, { c with
        rx := store c.rx c.headerLen t
        headerLen := c.headerLen + t.length
        incoming := rest }) := by
    intro fuel x i c b t hvbi hb hin
    obtain ⟨rfl, rfl⟩ := List.cons.inj hvbi
    have hlow : (c.rx (1 + i)).toNat &&& 0x80 = 0 := by
      rw [hb, high_iff, Wire.toNat_ofNat (by omega)]
      omega
    rw [readLens, if_pos hlow, ← show c.incoming = rest from hin]
    rfl
  intro j
  induction j with
  | zero =>
    intro x i c b t hvbi hx hb hlen hin
    exact hend hvbi hb hin
  | succ j ih =>
    intro x i c b t hvbi hx hb hlen hin
    rw [Wire.vbi] at hvbi
    split_ifs at hvbi with hsmall
    · exact hend hvbi hb hin
    · obtain ⟨rfl, rfl⟩ := List.cons.inj hvbi
      have hhigh : ¬ (c.rx (1 + i)).toNat &&& 0x80 = 0 := by
        rw [hb, high_iff, Wire.toNat_ofNat (by omega)]
        omega
      have hrest : x / 128 < 128 ^ (j + 1) := Nat.div_lt_of_lt_mul (by rw [← pow_succ']; exact hx)
      obtain ⟨b', t', hvbi'⟩ := vbi_cons j (x / 128)
      rw [hvbi'] at hin ⊢
      have hone : c.incoming = arrive [b'] ++ (arrive t' ++ rest) := by rw [hin]; rfl
      have hat : store c.rx c.headerLen [b'] (1 + (i + 1)) = b' := by
        rw [show 1 + (i + 1) = (c.headerLen : ℤ) by omega]
        exact Function.update_self ..
      rw [readLens, if_neg hhigh, readAt_arrive (n := 1) rfl hone]
      simp only
      rw [ih hvbi' hrest hat (by push_cast; omega) rfl]
      have hstore : store (store c.rx c.headerLen [b']) ((c.headerLen + 1 : ℕ) : ℤ) t' = store c.rx c.headerLen (b' :: t') := by
        push_cast
        rfl
      simp only [hstore, List.length_cons, Nat.add_assoc, Nat.add_comm 1]

/-- The lengths of a packet in the buffer. -/
theorem decodeVbi_at {n : ℕ} (hn : n < 128 ^ 4) (h : At m 1 (Wire.vbi 3 n)) :
    decodeVbi 0 (peek m 1 5) = some (n, (Wire.vbi 3 n).length) := by
  have hle := Wire.length_vbi_le 3 n
  obtain ⟨k, hk⟩ : ∃ k, 5 = (Wire.vbi 3 n).length + k := ⟨5 - (Wire.vbi 3 n).length, by omega⟩
  rw [hk, peek_append, peek_of_at h, decodeVbi_vbi _ (by omega) hn, pow_zero, mul_one]

end Header

/-! ## A packet -/

section Packet

variable {first : UInt8} {body : List UInt8} {rest : List Arrival} {c : Client ω}

@[simp] theorem length_frame (first : UInt8) (body : List UInt8) : (frame first body).length = headSize body + body.length := by
  rw [frame, headSize, List.length_cons, List.length_append]
  omega

theorem headSize_bounds (body : List UInt8) : 2 ≤ headSize body ∧ headSize body ≤ 5 := by
  obtain ⟨b, t, hvbi⟩ := vbi_cons 3 body.length
  have hle := Wire.length_vbi_le 3 body.length
  have hpos : 1 ≤ (Wire.vbi 3 body.length).length := by rw [hvbi, List.length_cons]; omega
  rw [headSize]
  omega

theorem take_frame (first : UInt8) (body : List UInt8) :
    (frame first body).take rxBufLen = first :: Wire.vbi 3 body.length ++ body.take (rxBufLen - headSize body) := by
  have hsize : (first :: Wire.vbi 3 body.length).length = headSize body := by rw [List.length_cons, headSize, Nat.add_comm]
  have hle := (headSize_bounds body).2
  have hfront : frame first body = first :: Wire.vbi 3 body.length ++ body := rfl
  rw [hfront, List.take_append, List.take_of_length_le (by rw [hsize, rxBufLen]; omega), hsize]

theorem drop_frame (first : UInt8) (body : List UInt8) :
    (frame first body).drop rxBufLen = body.drop (rxBufLen - headSize body) := by
  have hsize : (first :: Wire.vbi 3 body.length).length = headSize body := by rw [List.length_cons, headSize, Nat.add_comm]
  have hle := (headSize_bounds body).2
  have hfront : frame first body = first :: Wire.vbi 3 body.length ++ body := rfl
  rw [hfront, List.drop_append, List.drop_eq_nil_of_le (by rw [hsize, rxBufLen]; omega), List.nil_append, hsize]

/-- The client behind a packet that has come in. -/
def Client.took (c : Client ω) (first : UInt8) (body : List UInt8) (rest : List Arrival) : Client ω :=
  { c with
    pkStat := .begin
    headerLen := headSize body
    remainLen := body.length
    rx := store c.rx 0 ((frame first body).take rxBufLen)
    incoming := arrive ((frame first body).drop rxBufLen) ++ rest }

/-- The rest of a packet is read as far as it fits. -/
theorem readRest_arrive (hbody : c.remainLen = body.length) (hlen : c.headerLen ≤ 5) (hin : c.incoming = arrive body ++ rest) :
    readRest c = (((min (c.headerLen + body.length) rxBufLen : ℕ) : ℤ), { c with
      pkStat := .begin
      rx := store c.rx c.headerLen (body.take (rxBufLen - c.headerLen))
      incoming := arrive (body.drop (rxBufLen - c.headerLen)) ++ rest }) := by
  have hroom : ¬ rxBufLen < c.headerLen := by rw [rxBufLen]; omega
  simp only [readRest, hroom, if_false]
  by_cases hnil : c.remainLen = 0
  · obtain rfl : body = [] := List.eq_nil_of_length_eq_zero (by omega)
    have hsum : min (c.headerLen + ([] : List UInt8).length) rxBufLen = c.headerLen := by
      rw [List.length_nil, rxBufLen]
      omega
    rw [if_pos hnil, hsum, List.take_nil, List.drop_nil, ← show c.incoming = arrive [] ++ rest from hin]
    rfl
  · have hpos : ¬ min c.remainLen (rxBufLen - c.headerLen) = 0 := by rw [rxBufLen]; omega
    have htake : min c.remainLen (rxBufLen - c.headerLen) = (body.take (rxBufLen - c.headerLen)).length := by
      rw [List.length_take, hbody, min_comm]
    have hsplit : ({ c with pkStat := .read } : Client ω).incoming = arrive (body.take (rxBufLen - c.headerLen)) ++
        (arrive (body.drop (rxBufLen - c.headerLen)) ++ rest) := by
      rw [hin, ← List.append_assoc, arrive, arrive, arrive, ← List.map_append, List.take_append_drop]
    have hsum : (c.headerLen : ℤ) + (min c.remainLen (rxBufLen - c.headerLen) : ℕ) =
        (min (c.headerLen + body.length) rxBufLen : ℕ) := by
      rw [hbody, rxBufLen]
      omega
    rw [if_neg hnil, if_neg hpos, readAt_arrive htake hsplit]
    simp only [hsum]

/-- **A packet comes in** as far as it fits the buffer. -/
theorem packetRead_frame (hbody : body.length < 128 ^ 4) (hstat : c.pkStat = .begin)
    (hin : c.incoming = arrive (frame first body) ++ rest) :
    packetRead c = (((min (headSize body + body.length) rxBufLen : ℕ) : ℤ), c.took first body rest) := by
  obtain ⟨b, t, hvbi⟩ := vbi_cons 3 body.length
  have hle := Wire.length_vbi_le 3 body.length
  have hsize : headSize body = 2 + t.length := by
    rw [headSize, hvbi, List.length_cons]
    omega
  have hframe : frame first body = [first, b] ++ (t ++ body) := by rw [frame, hvbi]; rfl
  obtain ⟨pkStat, headerLen, remainLen, bufLen, rx, msg, incoming, world⟩ := c
  obtain rfl : pkStat = .begin := hstat
  obtain rfl : incoming = arrive (frame first body) ++ rest := hin
  -- the first two bytes
  have hin₁ : arrive (frame first body) ++ rest = arrive [first, b] ++ (arrive t ++ (arrive body ++ rest)) := by
    rw [hframe, arrive, arrive, arrive, arrive, List.map_append, List.map_append, List.append_assoc, List.append_assoc]
  have hread := readAt_arrive (c := ⟨.begin, 2, 0, bufLen, rx, msg, arrive (frame first body) ++ rest, world⟩) (n := 2)
    rfl hin₁ 0
  -- the other bytes of the length
  have hb : store rx 0 [first, b] (1 + 0) = b := (at_store [first, b] rx 0).2.1
  have hlens := readLens_vbi (c := ⟨.readHead, 2, 0, bufLen, store rx 0 [first, b], msg, arrive t ++ (arrive body ++ rest), world⟩)
    (j := 3) (i := 0) hvbi hbody hb rfl rfl
  have hrx : store (store rx 0 [first, b]) ((2 : ℕ) : ℤ) t = store rx 0 (first :: Wire.vbi 3 body.length) := by
    rw [hvbi]
    rfl
  have hat := at_store (first :: Wire.vbi 3 body.length) rx 0
  have hdecode : decodeVbi 0 (peek (store rx 0 (first :: Wire.vbi 3 body.length)) 1 5) =
      some (body.length, (Wire.vbi 3 body.length).length) := decodeVbi_at hbody hat.2
  -- what is behind the header
  have hhead : (Wire.vbi 3 body.length).length + 1 = headSize body := by rw [headSize, Nat.add_comm]
  have hrest := readRest_arrive (c := ⟨.readHead, headSize body, body.length, bufLen,
    store rx 0 (first :: Wire.vbi 3 body.length), msg, arrive body ++ rest, world⟩)
    (show body.length = body.length from rfl) (by simp only; omega) (show arrive body ++ rest = arrive body ++ rest from rfl)
  have hstore : store (store rx 0 (first :: Wire.vbi 3 body.length)) (headSize body)
      (body.take (rxBufLen - headSize body)) = store rx 0 ((frame first body).take rxBufLen) := by
    rw [take_frame, store_append, List.length_cons, hhead, zero_add]
  rw [packetRead]
  simp only
  rw [hread]
  simp only [readHead]
  rw [Nat.cast_zero, hlens]
  simp only [hrx, hdecode, hhead]
  rw [hrest]
  simp only [Client.took, hstore, drop_frame]

theorem took_at (c : Client ω) (first : UInt8) (body : List UInt8) (rest : List Arrival) :
    At (c.took first body rest).rx 0 ((frame first body).take rxBufLen) := at_store _ _ _

theorem took_type (c : Client ω) (first : UInt8) (body : List UInt8) (rest : List Arrival) :
    (c.took first body rest).rx 0 = first := by
  have hat := took_at c first body rest
  rw [take_frame] at hat
  exact hat.1

/-- The lengths of the packet that has come in. -/
theorem decodeLens_took (hbody : body.length < 128 ^ 4) :
    decodeLens (c.took first body rest).rx = some (headSize body, body.length) := by
  have hat := took_at c first body rest
  rw [take_frame, at_append] at hat
  have hvbi : At (c.took first body rest).rx 1 (Wire.vbi 3 body.length) := hat.1.2
  rw [decodeLens, decodeVbi_at hbody hvbi, Option.map_some, headSize, Nat.add_comm 1]

/-- The front of the rest of the packet. -/
theorem took_body {s t : List UInt8} (hbody : body = s ++ t) (hle : headSize body + s.length ≤ rxBufLen) :
    At (c.took first body rest).rx (headSize body) s := by
  have hat := took_at c first body rest
  have hsize : (first :: Wire.vbi 3 body.length).length = headSize body := by rw [List.length_cons, headSize, Nat.add_comm]
  rw [take_frame, at_append, hsize, zero_add] at hat
  have htake : body.take (rxBufLen - headSize body) = s ++ t.take (rxBufLen - headSize body - s.length) := by
    rw [hbody, List.take_append, List.take_of_length_le (by rw [← hbody]; omega)]
  rw [htake] at hat
  exact ((at_append _ _ _ _).1 hat.2).1

end Packet

end W601.Mqtt.Recv
