import W601.Lib.Base64
import W601.Lib.CMem
import W601.Lib.CNum

/-!
# The stored WiFi configuration (`wifi_config.c`)

`write_cfg` keeps a configuration as two strings in the environment of EasyFlash: its length in decimal,
and its bytes in Base64. `read_cfg` decodes the second one into a buffer whose size the caller has taken
from the first one. Encoder and decoder work on memory, character by character.

* `strBase64EncodeLen_eq`, `strBase64Decode_encode`: what they leave there.
* `cfg_round_trips`: what was written is read.
-/

namespace W601.Wifi

open CMem CNum

/-- `base64_table`, without its terminator. -/
def base64Table : List UInt8 := text "ABCDEFGHIJKLMNOPQRSTUVWXYZabcdefghijklmnopqrstuvwxyz0123456789+/"

/-- `base64_decode_table`. -/
def base64DecodeTable : List UInt8 :=
  [0x00, 0x00, 0x00, 0x00, 0x00, 0x00, 0x00, 0x00, 0x00, 0x00, 0x00, 0x00, 0x00, 0x00, 0x00, 0x00,
   0x00, 0x00, 0x00, 0x00, 0x00, 0x00, 0x00, 0x00, 0x00, 0x00, 0x00, 0x00, 0x00, 0x00, 0x00, 0x00,
   0x00, 0x00, 0x00, 0x00, 0x00, 0x00, 0x00, 0x00, 0x00, 0x00, 0x00, 0x3E, 0x00, 0x00, 0x00, 0x3F,
   0x34, 0x35, 0x36, 0x37, 0x38, 0x39, 0x3A, 0x3B, 0x3C, 0x3D, 0x00, 0x00, 0x00, 0x00, 0x00, 0x00,
   0x00, 0x00, 0x01, 0x02, 0x03, 0x04, 0x05, 0x06, 0x07, 0x08, 0x09, 0x0A, 0x0B, 0x0C, 0x0D, 0x0E,
   0x0F, 0x10, 0x11, 0x12, 0x13, 0x14, 0x15, 0x16, 0x17, 0x18, 0x19, 0x00, 0x00, 0x00, 0x00, 0x00,
   0x00, 0x1A, 0x1B, 0x1C, 0x1D, 0x1E, 0x1F, 0x20, 0x21, 0x22, 0x23, 0x24, 0x25, 0x26, 0x27, 0x28,
   0x29, 0x2A, 0x2B, 0x2C, 0x2D, 0x2E, 0x2F, 0x30, 0x31, 0x32, 0x33, 0x00, 0x00, 0x00, 0x00, 0x00,
   0x00, 0x00, 0x00, 0x00, 0x00, 0x00, 0x00, 0x00, 0x00, 0x00, 0x00, 0x00, 0x00, 0x00, 0x00, 0x00,
   0x00, 0x00, 0x00, 0x00, 0x00, 0x00, 0x00, 0x00, 0x00, 0x00, 0x00, 0x00, 0x00, 0x00, 0x00, 0x00,
   0x00, 0x00, 0x00, 0x00, 0x00, 0x00, 0x00, 0x00, 0x00, 0x00, 0x00, 0x00, 0x00, 0x00, 0x00, 0x00,
   0x00, 0x00, 0x00, 0x00, 0x00, 0x00, 0x00, 0x00, 0x00, 0x00, 0x00, 0x00, 0x00, 0x00, 0x00, 0x00,
   0x00, 0x00, 0x00, 0x00, 0x00, 0x00, 0x00, 0x00, 0x00, 0x00, 0x00, 0x00, 0x00, 0x00, 0x00, 0x00,
   0x00, 0x00, 0x00, 0x00, 0x00, 0x00, 0x00, 0x00, 0x00, 0x00, 0x00, 0x00, 0x00, 0x00, 0x00, 0x00,
   0x00, 0x00, 0x00, 0x00, 0x00, 0x00, 0x00, 0x00, 0x00, 0x00, 0x00, 0x00, 0x00, 0x00, 0x00, 0x00,
   0x00, 0x00, 0x00, 0x00, 0x00, 0x00, 0x00, 0x00, 0x00, 0x00, 0x00, 0x00, 0x00, 0x00, 0x00, 0x00]

/-- `'='`. -/
def padChar : UInt8 := 61

/-- An entry of `base64_table`. -/
def letter (i : ℕ) : UInt8 := base64Table.getD i 0

/-! ## The encoder -/

/-- `*pos++ = c`. -/
def put (w : (ℤ → UInt8) × ℤ) (c : UInt8) : (ℤ → UInt8) × ℤ := (Function.update w.1 w.2 c, w.2 + 1)

/-- The loop of `str_base64_encode_len`: what it leaves of the source, the memory and `pos`. -/
def encodeLoop : List UInt8 → (ℤ → UInt8) × ℤ → List UInt8 × (ℤ → UInt8) × ℤ
  | a :: b :: c :: rest, w =>
    encodeLoop rest ([letter (a.toNat >>> 2), letter ((a.toNat &&& 0x03) <<< 4 ||| b.toNat >>> 4),
      letter ((b.toNat &&& 0x0f) <<< 2 ||| c.toNat >>> 6), letter (c.toNat &&& 0x3f)].foldl put w)
  | rest, w => (rest, w)

/-- What `str_base64_encode_len` does with the one or two bytes that are left. -/
def encodeTail : List UInt8 → (ℤ → UInt8) × ℤ → (ℤ → UInt8) × ℤ
  | [], w => w
  | [a], w => [letter (a.toNat >>> 2), letter ((a.toNat &&& 0x03) <<< 4), padChar, padChar].foldl put w
  | a :: b :: _, w =>
    [letter (a.toNat >>> 2), letter ((a.toNat &&& 0x03) <<< 4 ||| b.toNat >>> 4), letter ((b.toNat &&& 0x0f) <<< 2),
      padChar].foldl put w

/-- `str_base64_encode_len`: the memory behind it. -/
def strBase64EncodeLen (src : List UInt8) (out : ℤ) (m : ℤ → UInt8) : ℤ → UInt8 :=
  let r := encodeLoop src (m, out)
  let w := encodeTail r.1 r.2
  Function.update w.1 w.2 0

theorem shiftRight_byte (a : UInt8) (k : ℕ) : a.toNat >>> k = a.toNat / 2 ^ k := Nat.shiftRight_eq_div_pow _ _

/-- The index that is made of the low `k` bits of `a` and of `r`. -/
theorem index_eq (a k : ℕ) {j r : ℕ} (hr : r < 2 ^ j) : (a &&& (2 ^ k - 1)) <<< j ||| r = a % 2 ^ k * 2 ^ j + r := by
  rw [← Nat.shiftLeft_add_eq_or_of_lt hr, Nat.and_two_pow_sub_one_eq_mod, Nat.shiftLeft_eq]

/-- The second index of a group. -/
theorem second_eq (a b : UInt8) : (a.toNat &&& 0x03) <<< 4 ||| b.toNat >>> 4 = a.toNat % 4 * 16 + b.toNat / 16 := by
  rw [shiftRight_byte]
  apply index_eq a.toNat 2 (j := 4)
  have := b.toNat_lt
  omega

/-- The third index of a group. -/
theorem third_eq (b c : UInt8) : (b.toNat &&& 0x0f) <<< 2 ||| c.toNat >>> 6 = b.toNat % 16 * 4 + c.toNat / 64 := by
  rw [shiftRight_byte]
  apply index_eq b.toNat 4 (j := 2)
  have := c.toNat_lt
  omega

/-- The last index of a group that is short: nothing is put behind the low bits. -/
theorem low_eq (a k j : ℕ) : (a &&& (2 ^ k - 1)) <<< j = a % 2 ^ k * 2 ^ j := by
  rw [Nat.and_two_pow_sub_one_eq_mod, Nat.shiftLeft_eq]

theorem foldl_put (l : List UInt8) : ∀ (m : ℤ → UInt8) (i : ℤ), l.foldl put (m, i) = (store m i l, i + l.length) := by
  induction l with
  | nil => intro m i; simp [store]
  | cons c l ih =>
    intro m i
    rw [List.foldl_cons, put, ih, store, List.length_cons]
    congr 1
    push_cast
    ring

/-- The loop and the tail put the letters, one behind the other. -/
theorem encodeTail_encodeLoop (src : List UInt8) : ∀ (m : ℤ → UInt8) (i : ℤ),
    encodeTail (encodeLoop src (m, i)).1 (encodeLoop src (m, i)).2 =
      (Base64.encode letter padChar src).foldl put (m, i) := by
  induction src using Base64.encode.induct with
  | case1 a b c rest ih =>
    intro m i
    have hlow : c.toNat &&& 0x3f = c.toNat % 64 := Nat.and_two_pow_sub_one_eq_mod c.toNat 6
    rw [encodeLoop, shiftRight_byte a 2, second_eq, third_eq, hlow, foldl_put, ih, ← foldl_put, ← List.foldl_append]
    rfl
  | case2 a b =>
    intro m i
    have hlow : (b.toNat &&& 0x0f) <<< 2 = b.toNat % 16 * 4 := low_eq b.toNat 4 2
    show [letter _, letter _, letter _, padChar].foldl put (m, i) = _
    rw [shiftRight_byte a 2, second_eq, hlow]
    rfl
  | case3 a =>
    intro m i
    have hlow : (a.toNat &&& 0x03) <<< 4 = a.toNat % 4 * 16 := low_eq a.toNat 2 4
    show [letter _, letter _, padChar, padChar].foldl put (m, i) = _
    rw [shiftRight_byte a 2, hlow]
    rfl
  | case4 => intro m i; rfl

/-- **The encoder** leaves the letters and a terminator, and changes nothing else. -/
theorem strBase64EncodeLen_eq (src : List UInt8) (out : ℤ) (m : ℤ → UInt8) :
    strBase64EncodeLen src out m = store m out (Base64.encode letter padChar src ++ [0]) := by
  simp only [strBase64EncodeLen]
  rw [encodeTail_encodeLoop, foldl_put, store_append]
  rfl

/-! ## The decoder -/

/-- The value of a character. -/
def sextet (c : UInt8) : ℕ := if c = padChar then 0 else (base64DecodeTable.getD c.toNat 0).toNat

/-- `if (j < out_len) decoded_data[j++] = b`. -/
def emit (outLen : ℤ) (w : (ℤ → UInt8) × ℤ) (b : UInt8) : (ℤ → UInt8) × ℤ :=
  if w.2 < outLen then (Function.update w.1 w.2 b, w.2 + 1) else w

/-- The loop of `str_base64_decode`, for that many groups of four characters from index `i` on. -/
def decodeLoop (data : ℤ → UInt8) (outLen : ℤ) : ℕ → ℤ → (ℤ → UInt8) × ℤ → (ℤ → UInt8) × ℤ
  | 0, _, w => w
  | k + 1, i, w =>
    let triple := (sextet (data i) <<< (3 * 6)) + (sextet (data (i + 1)) <<< (2 * 6)) +
      (sextet (data (i + 2)) <<< (1 * 6)) + (sextet (data (i + 3)) <<< (0 * 6))
    decodeLoop data outLen k (i + 4) ([UInt8.ofNat ((triple >>> (2 * 8)) &&& 0xFF),
      UInt8.ofNat ((triple >>> (1 * 8)) &&& 0xFF), UInt8.ofNat ((triple >>> (0 * 8)) &&& 0xFF)].foldl (emit outLen) w)

/-- `str_base64_decode`: the answer and the memory behind it. `data` holds the text at `0`; of an empty
text the function looks at the cells in front. -/
def strBase64Decode (data : ℤ → UInt8) (inputLength : ℕ) (decodedData : ℤ → UInt8) : ℤ × (ℤ → UInt8) :=
  if inputLength % 4 ≠ 0 then (0, decodedData)
  else
    let outLen : ℤ := (inputLength / 4 * 3 : ℕ)
    let outLen := if data (inputLength - 1) = padChar then outLen - 1 else outLen
    let outLen := if data (inputLength - 2) = padChar then outLen - 1 else outLen
    (outLen, (decodeLoop data outLen (inputLength / 4) 0 (decodedData, 0)).1)

/-- The two tables belong together. -/
theorem reads_table : Base64.Reads letter padChar sextet where
  letter := by decide +kernel
  zero := by decide
  ne := by decide

theorem foldl_emit (outLen : ℤ) (vs : List UInt8) : ∀ (m : ℤ → UInt8) (j : ℤ),
    (vs.foldl (emit outLen) (m, j)).1 = store m j (vs.take (outLen - j).toNat) := by
  induction vs with
  | nil => intro m j; simp [store]
  | cons v vs ih =>
    intro m j
    rw [List.foldl_cons, emit]
    by_cases hj : j < outLen
    · obtain ⟨n, hn⟩ : ∃ n, (outLen - j).toNat = n + 1 := ⟨(outLen - j).toNat - 1, by omega⟩
      have hn' : (outLen - (j + 1)).toNat = n := by omega
      rw [if_pos hj, ih, hn, hn', List.take_succ_cons, store]
    · have hn : (outLen - j).toNat = 0 := by omega
      rw [if_neg hj, ih, hn, List.take_zero, List.take_zero]

theorem ofNat_and (n : ℕ) : UInt8.ofNat (n &&& 0xFF) = UInt8.ofNat n := by
  have hmod : n &&& 0xFF = n % 256 := Nat.and_two_pow_sub_one_eq_mod n 8
  rw [← UInt8.toNat_inj, UInt8.toNat_ofNat', UInt8.toNat_ofNat', hmod]
  exact Nat.mod_mod _ _

/-- The loop offers the bytes of the text to the buffer. -/
theorem decodeLoop_eq {data : ℤ → UInt8} (outLen : ℤ) (k : ℕ) : ∀ {s : List UInt8} {i : ℤ} (w : (ℤ → UInt8) × ℤ),
    At data i s → s.length = 4 * k → decodeLoop data outLen k i w = (Base64.decode sextet s).foldl (emit outLen) w := by
  induction k with
  | zero =>
    intro s i w _ hs
    obtain rfl : s = [] := List.length_eq_zero_iff.1 hs
    rfl
  | succ k ih =>
    intro s i w hat hs
    match s, hat, hs with
    | c0 :: c1 :: c2 :: c3 :: rest, hat, hs =>
      obtain ⟨h0, h1, h2, h3, hrest⟩ := hat
      have hlen : rest.length = 4 * k := by
        simp only [List.length_cons] at hs
        omega
      have e2 : i + 2 = i + 1 + 1 := by ring
      have e3 : i + 3 = i + 1 + 1 + 1 := by ring
      have e4 : i + 4 = i + 1 + 1 + 1 + 1 := by ring
      rw [decodeLoop, Base64.decode, List.foldl_append, e4, ih _ hrest hlen, h0, h1, e2, h2, e3, h3]
      congr 1
      simp only [ofNat_and, Nat.shiftRight_eq_div_pow, Nat.shiftLeft_eq, Base64.bytes, Base64.triple]
      norm_num

/-- **The decoder** leaves the bytes of which the text was made, and nothing behind them. It answers with
their number. -/
theorem strBase64Decode_encode (b : List UInt8) {data : ℤ → UInt8} (hat : At data 0 (Base64.encode letter padChar b))
    (buff : ℤ → UInt8) :
    (strBase64Decode data (Base64.encode letter padChar b).length buff).2 = store buff 0 b ∧
      (b ≠ [] → (strBase64Decode data (Base64.encode letter padChar b).length buff).1 = b.length) := by
  set s := Base64.encode letter padChar b with hs
  have hlen : s.length = 4 * ((b.length + 2) / 3) := Base64.encode_length letter padChar b
  have hmod : ¬ s.length % 4 ≠ 0 := by omega
  have hdiv : s.length / 4 = (b.length + 2) / 3 := by omega
  simp only [strBase64Decode, if_neg hmod]
  rw [decodeLoop_eq _ _ _ hat (by omega), foldl_emit, hs, Base64.decode_encode reads_table, ← hs]
  by_cases hb : b = []
  · subst hb
    have hpads : Base64.pads ([] : List UInt8).length = 0 := rfl
    rw [hpads]
    simp
  · -- the pads are the two last characters
    have hpos : 0 < b.length := List.length_pos_iff.2 hb
    obtain ⟨front, x, y, heq, hy, hx⟩ := Base64.encode_last reads_table b hb
    rw [← hs] at heq
    have hfront : s.length = front.length + 2 := by rw [heq]; simp
    rw [heq, at_append, zero_add] at hat
    obtain ⟨-, hprev, hlast, -⟩ := hat
    have e1 : (s.length : ℤ) - 1 = front.length + 1 := by omega
    have e2 : (s.length : ℤ) - 2 = front.length := by omega
    have hout : (if data (s.length - 2) = padChar then
        (if data (s.length - 1) = padChar then ((s.length / 4 * 3 : ℕ) : ℤ) - 1 else ((s.length / 4 * 3 : ℕ) : ℤ)) - 1
        else if data (s.length - 1) = padChar then ((s.length / 4 * 3 : ℕ) : ℤ) - 1 else ((s.length / 4 * 3 : ℕ) : ℤ)) =
        b.length := by
      rw [e1, e2, hlast, hprev, hdiv]
      simp only [hx, hy, Base64.pads]
      split_ifs <;> omega
    have htake : (b ++ List.replicate (Base64.pads b.length) 0).take ((b.length : ℤ) - 0).toNat = b := by
      simp
    rw [hout, htake]
    exact ⟨rfl, fun _ => rfl⟩

/-! ## The environment -/

/-- The two variables. -/
inductive Key
  | wlanCfgLen
  | wlanCfgInfo
  deriving DecidableEq

/-- The environment of EasyFlash. -/
abbrev Env := Key → Option (List UInt8)

/-- `ef_set_env`: when it fails, the old value stays. -/
def efSetEnv (ok : Bool) (key : Key) (value : List UInt8) (env : Env) : Env :=
  if ok then Function.update env key (some value) else env

/-- `get_len`. -/
def getLen (env : Env) : ℤ :=
  match env .wlanCfgLen with
  | none => 0
  | some s => atoi s

/-- `read_cfg`: the answer and the buffer behind it. `cache` is what stands around the string in the
memory of EasyFlash. -/
def readCfg (env : Env) (cache buff : ℤ → UInt8) (len : ℤ) : ℤ × (ℤ → UInt8) :=
  match env .wlanCfgInfo with
  | none => (0, buff)
  -- the length of the buffer is not looked at
  | some s => (len, (strBase64Decode (store cache 0 (s ++ [0])) s.length buff).2)

/-- The size that `write_cfg` gives to `rt_malloc`, as an `int`. -/
def mallocSize (len : ℕ) : ℤ := (Int.bmod (4 * len) (2 ^ 32)).tdiv 3 + 4

/-- The outcomes of the calls of `write_cfg`, and what the allocated block holds before. -/
structure WriteOut where
  mem : Bool
  setLen : Bool
  setInfo : Bool
  save : Bool
  heap : ℤ → UInt8

/-- The block of `write_cfg` behind the encoder. -/
def base64Buf (buff : List UInt8) (heap : ℤ → UInt8) : ℤ → UInt8 :=
  strBase64EncodeLen buff 0 (store heap 0 (List.replicate buff.length 0))

/-- `write_cfg`, up to `ef_save_env`: the answer and the environment. -/
def writeCfg (o : WriteOut) (buff : List UInt8) (env : Env) : ℤ × Env :=
  if !o.mem then (-5, env)
  else
    let env := efSetEnv o.setLen .wlanCfgLen (decimal buff.length) env
    -- the string that starts the block
    let info := readStr (base64Buf buff o.heap) (buff.length * 4 / 3 + 4) 0
    (buff.length, efSetEnv o.setInfo .wlanCfgInfo info env)

/-- The text of a configuration has no terminator in it. -/
theorem zero_notMem_encode (b : List UInt8) : (0 : UInt8) ∉ Base64.encode letter padChar b := by
  intro h
  obtain hpad | ⟨i, hi, hl⟩ := Base64.mem_encode h
  · exact absurd hpad (by decide)
  · have hne : ∀ i < 64, (0 : UInt8) ≠ letter i := by decide +kernel
    exact hne i hi hl

/-- The block of `write_cfg` holds the text. -/
theorem strAt_base64Buf (b : List UInt8) (heap : ℤ → UInt8) :
    StrAt (base64Buf b heap) 0 (Base64.encode letter padChar b) := by
  rw [base64Buf, strBase64EncodeLen_eq]
  exact strAt_store (zero_notMem_encode b) _ _

theorem readStr_base64Buf (b : List UInt8) (heap : ℤ → UInt8) :
    readStr (base64Buf b heap) (b.length * 4 / 3 + 4) 0 = Base64.encode letter padChar b := by
  apply readStr_eq (strAt_base64Buf b heap)
  rw [Base64.encode_length]
  omega

/-- What `write_cfg` does. -/
theorem writeCfg_eq {o : WriteOut} (hmem : o.mem = true) (b : List UInt8) (env : Env) :
    writeCfg o b env = ((b.length : ℤ), efSetEnv o.setInfo .wlanCfgInfo (Base64.encode letter padChar b)
      (efSetEnv o.setLen .wlanCfgLen (decimal b.length) env)) := by
  simp only [writeCfg, hmem, readStr_base64Buf]
  rfl

/-- What `read_cfg` makes of the text of a configuration: the length is the caller's, the bytes are those
of the configuration. -/
theorem readCfg_encode {env : Env} {b : List UInt8} (h : env .wlanCfgInfo = some (Base64.encode letter padChar b))
    (cache buff : ℤ → UInt8) (len : ℤ) : readCfg env cache buff len = (len, store buff 0 b) := by
  have hat : At (store cache 0 (Base64.encode letter padChar b ++ [0])) 0 (Base64.encode letter padChar b) :=
    ((at_append _ _ _ _).1 (at_store _ cache 0)).1
  rw [readCfg, h]
  simp only [(strBase64Decode_encode b hat buff).1]

theorem bmod_four_mul {len : ℕ} (h : len < 2 ^ 29) : Int.bmod (4 * len) (2 ^ 32) = 4 * len := by
  refine Int.bmod_eq_of_le_mul_two ?_ ?_
  · push_cast
    omega
  · push_cast
    omega

/-- The size does not wrap. -/
theorem mallocSize_eq {len : ℕ} (h : len < 2 ^ 29) : mallocSize len = (len * 4 / 3 + 4 : ℕ) := by
  have hdiv : (4 * (len : ℤ)).tdiv 3 = 4 * len / 3 := Int.tdiv_eq_ediv_of_nonneg (by omega)
  unfold mallocSize
  rw [bmod_four_mul h, hdiv]
  push_cast
  rw [mul_comm]

/-- The block is large enough. -/
theorem base64Buf_outside {b : List UInt8} (h : b.length < 2 ^ 29) (heap : ℤ → UInt8) {i : ℤ}
    (hi : i < 0 ∨ mallocSize b.length ≤ i) : base64Buf b heap i = heap i := by
  rw [mallocSize_eq h] at hi
  have hlen := Base64.encode_length letter padChar b
  rw [base64Buf, strBase64EncodeLen_eq, store_outside _ _ _ (by simp only [List.length_append, List.length_singleton]; omega),
    store_outside _ _ _ (by rw [List.length_replicate]; omega)]

/-- **What was written is read.** For a configuration of 1 to 2^29 - 1 bytes whose variables are stored,
`get_len` answers with its length, `read_cfg` leaves its bytes in the buffer, nothing behind them, and answers with
its length. The decoder undoes the encoder, and the encoder stays inside of the block of `write_cfg`. -/
theorem cfg_round_trips (b : List UInt8) (hpos : 1 ≤ b.length) (hlen : b.length < 2 ^ 29) (o : WriteOut)
    (hmem : o.mem = true) (hsetLen : o.setLen = true) (hsetInfo : o.setInfo = true) (env : Env)
    (cache buff : ℤ → UInt8) :
    (writeCfg o b env).1 = b.length ∧
    getLen (writeCfg o b env).2 = b.length ∧
    readCfg (writeCfg o b env).2 cache buff b.length = ((b.length : ℤ), store buff 0 b) ∧
    strBase64Decode (base64Buf b o.heap) (readStr (base64Buf b o.heap) (b.length * 4 / 3 + 4) 0).length buff =
      ((b.length : ℤ), store buff 0 b) ∧
    ∀ i, i < 0 ∨ mallocSize b.length ≤ i → base64Buf b o.heap i = o.heap i := by
  have hne : b ≠ [] := List.length_pos_iff.1 hpos
  rw [writeCfg_eq hmem, hsetLen, hsetInfo]
  refine ⟨rfl, ?_, ?_, ?_, fun i hi => base64Buf_outside hlen o.heap hi⟩
  · simp [getLen, efSetEnv, atoi_decimal]
  · apply readCfg_encode
    simp [efSetEnv]
  · have hat := ((at_append _ _ _ _).1 (strAt_base64Buf b o.heap).1).1
    obtain ⟨hbytes, hcount⟩ := strBase64Decode_encode b hat buff
    rw [readStr_base64Buf]
    exact Prod.ext (hcount hne) hbytes

/-- A configuration of four bytes. -/
theorem cfg_round_trips_four : readCfg (writeCfg ⟨true, true, true, true, fun _ => 0xA5⟩ [1, 2, 0, 255] fun _ => none).2
    (fun _ => 7) (fun _ => 9) 4 = (4, store (fun _ => 9) 0 [1, 2, 0, 255]) :=
  (cfg_round_trips [1, 2, 0, 255] (by decide) (by decide) ⟨true, true, true, true, fun _ => 0xA5⟩ rfl rfl rfl
    (fun _ => none) (fun _ => 7) fun _ => 9).2.2.1

end W601.Wifi
