import W601.Lib.CrcPoly
import W601.Tools.MakeFal

/-!
# The image tool in Python (`rtt_makeimg_fls.py`)

The script does the work of `make_fal`. It fills the last 4 KiB in front of 56 KiB and lays the FAL file over
their start, where `make_fal` lays it over their end, and it clears the version.

* `crc32_standard`: the checksum of the two tools.
* `zlibCrc32_remainder`: it is that of the standard, a remainder of polynomials.
* `makeImgFls_eq`: what the script makes.
* `same_output_iff`: when the two tools make the same file.
* `tools_differ`: two files of which they do not.
-/

namespace W601.Tools

open Cells

/-- The exceptions of the script. -/
inductive PyError
  | notFound
  | structError
  | inputError
  | createError

/-- `zlib.crc32`: the standard CRC-32. -/
def zlibCrc32 (data : List UInt8) : BitVec 32 := Crc.crc poly 0xFFFFFFFF data ^^^ 0xFFFFFFFF

/-- `f.seek(p)` and `f.write(d)`: a gap in front of `p` is filled with zeros. -/
def seekWrite (f : List UInt8) (p : ℕ) (d : List UInt8) : List UInt8 := overwrite (f ++ List.replicate (p - f.length) 0) p d

/-- The output file behind the FAL file. -/
def pyOverlay (fls fal : List UInt8) : List UInt8 :=
  let out := fls
  let out := seekWrite out (52 * 1024) (List.replicate (4 * 1024) 0xff)
  seekWrite out (52 * 1024) (fal.take (4 * 1024))

/-- The output file from the first checksum on. -/
def pyStamp (out : List UInt8) : Except PyError (List UInt8) :=
  let outData := out.drop 56
  let outCrc := zlibCrc32 outData ^^^ 0xFFFFFFFF
  let outLen := outData.length
  -- `struct.pack` wants a number of four bytes
  if 2 ^ 32 ≤ outLen then .error .structError
  else
    let imageHeader := (newHead outLen outCrc (List.replicate 16 0)).bytes
    let headerCrc := zlibCrc32 imageHeader ^^^ 0xFFFFFFFF
    .ok (seekWrite out 0 (imageHeader ++ le 4 headerCrc.toNat))

/-- `main` behind its arguments, which name three files. `create` says whether the output file can be opened. -/
def makeImgFls (create : Bool) (fls fal : Option (List UInt8)) : Except PyError (List UInt8) :=
  match fls with
  | none => .error .notFound
  | some fls =>
    -- `struct.unpack` wants four bytes
    if fls.length < 4 then .error .structError
    else if ofLe (fls.take 4) ≠ secbootMagicNo then .error .inputError
    else
      match fal with
      | none => .error .notFound
      | some fal => if !create then .error .createError else pyStamp (pyOverlay fls fal)

theorem zlibCrc32_xor (data : List UInt8) : zlibCrc32 data ^^^ 0xFFFFFFFF = sum data := by
  rw [zlibCrc32, BitVec.xor_assoc, BitVec.xor_self, BitVec.xor_zero]
  rfl

/-- **The checksum of the two tools.** Without a final exclusive or, `crc32` is the bitwise CRC of the polynomial from the
start value on. A buffer may be fed in two parts. From all ones on the script computes the same. -/
theorem crc32_standard (val xorout flags : BitVec 32) (front back : List UInt8) :
    (crc32 ⟨val, 0, flags⟩ (front ++ back)).1 = Crc.crc 0xEDB88320 val (front ++ back) ∧
      crc32 (crc32 ⟨val, xorout, flags⟩ front).2 back = crc32 ⟨val, xorout, flags⟩ (front ++ back) ∧
      (crc32 ⟨0xFFFFFFFF, 0, flags⟩ (front ++ back)).1 = zlibCrc32 (front ++ back) ^^^ 0xFFFFFFFF := by
  have hbits : ∀ v : BitVec 32, (crc32 ⟨v, 0, flags⟩ (front ++ back)).1 = Crc.crc poly v (front ++ back) := by
    intro v
    rw [crc32_eq]
    exact BitVec.xor_zero
  refine ⟨hbits val, crc32_append _ front back, ?_⟩
  rw [hbits, zlibCrc32_xor]
  rfl

section Standard

open Polynomial

/-- The generator of the standard. -/
theorem gen_poly : Crc.gen poly = X ^ 32 + X ^ 26 + X ^ 23 + X ^ 22 + X ^ 16 + X ^ 12 + X ^ 11 + X ^ 10 + X ^ 8 + X ^ 7 +
    X ^ 5 + X ^ 4 + X ^ 2 + X + 1 := by
  have hbits : ∀ k < 32, poly.getMsbD k = decide (k ∈ [0, 1, 2, 4, 5, 7, 8, 10, 11, 12, 16, 22, 23, 26]) := by decide
  have hrest : Crc.toPoly poly = ∑ k ∈ Finset.range 32,
      if k ∈ [0, 1, 2, 4, 5, 7, 8, 10, 11, 12, 16, 22, 23, 26] then (X : (ZMod 2)[X]) ^ k else 0 := by
    refine Finset.sum_congr rfl fun k hk => ?_
    rw [hbits k (Finset.mem_range.1 hk)]
    simp only [decide_eq_true_eq]
  have hsum : (∑ k ∈ Finset.range 32,
      if k ∈ [0, 1, 2, 4, 5, 7, 8, 10, 11, 12, 16, 22, 23, 26] then (X : (ZMod 2)[X]) ^ k else 0) =
      1 + X + X ^ 2 + X ^ 4 + X ^ 5 + X ^ 7 + X ^ 8 + X ^ 10 + X ^ 11 + X ^ 12 + X ^ 16 + X ^ 22 + X ^ 23 + X ^ 26 := by
    simp [Finset.sum_range_succ]
  rw [Crc.gen, hrest, hsum]
  ring

/-- **The checksum of the standard**: the ones behind the remainder of the message, with 32 ones added in front of it. -/
theorem zlibCrc32_remainder (data : List UInt8) :
    Crc.toPoly (zlibCrc32 data) =
      (X ^ (8 * data.length) * (∑ k ∈ Finset.range 32, X ^ k) + X ^ 32 * Crc.message data) %ₘ Crc.gen poly +
        ∑ k ∈ Finset.range 32, X ^ k := by
  have hones : Crc.toPoly (0xFFFFFFFF : BitVec 32) = ∑ k ∈ Finset.range 32, X ^ k := by
    have hbits : ∀ k < 32, (0xFFFFFFFF : BitVec 32).getMsbD k = true := by decide
    refine Finset.sum_congr rfl fun k hk => ?_
    rw [hbits k (Finset.mem_range.1 hk), if_pos rfl]
  rw [zlibCrc32, Crc.toPoly_xor, Crc.toPoly_crc (by decide), hones]

end Standard

theorem seekWrite_eq {f : List UInt8} {p : ℕ} (hp : p ≤ f.length) (d : List UInt8) : seekWrite f p d = overwrite f p d := by
  have hgap : p - f.length = 0 := by omega
  rw [seekWrite, hgap, List.replicate_zero, List.append_nil]

/-- The last 4 KiB in front of 56 KiB, as the script leaves them. -/
def pyArea (fal : List UInt8) : List UInt8 := fal ++ List.replicate (4096 - fal.length) 0xff

/-- The last 4 KiB in front of 56 KiB, as `make_fal` leaves them. -/
def cArea (fls fal : List UInt8) : List UInt8 := (fls.drop 53248).take (4096 - fal.length) ++ fal

section Area

variable {fls fal : List UInt8} (hfal : fal.length ≤ 4096) (hfls : 57344 ≤ fls.length)
include hfal

theorem pyArea_length : (pyArea fal).length = 4096 := by
  rw [pyArea, List.length_append, List.length_replicate]
  omega

include hfls

theorem cArea_length : (cArea fls fal).length = 4096 := by
  rw [cArea, List.length_append, List.length_take, List.length_drop]
  omega

/-- `make_fal` writes the area. -/
theorem overwrite_cArea : overwrite fls (secbootImgTotalLen - fal.length) fal = overwrite fls 53248 (cArea fls fal) := by
  have hlen : ((fls.drop 53248).take (4096 - fal.length)).length = 4096 - fal.length := by
    rw [List.length_take, List.length_drop]
    omega
  have hself : overwrite fls 53248 ((fls.drop 53248).take (4096 - fal.length)) = fls :=
    overwrite_self (by rw [hlen])
  have hoff : 53248 + (4096 - fal.length) = secbootImgTotalLen - fal.length := by
    have htotal : secbootImgTotalLen = 57344 := rfl
    omega
  rw [cArea, ← overwrite_append (by omega), hself, hlen, hoff]

end Area

/-- The file that the script makes. -/
def pyResult (fls fal : List UInt8) : List UInt8 :=
  assemble ((overwrite fls 53248 (pyArea fal)).drop 56) (List.replicate 16 0)

theorem pyOverlay_eq {fls fal : List UInt8} (hfal : fal.length ≤ 4096) (hfls : 57344 ≤ fls.length) :
    pyOverlay fls fal = overwrite fls 53248 (pyArea fal) := by
  have hones : (List.replicate (4 * 1024) (0xff : UInt8)).length = 4096 := List.length_replicate
  have hrest : (List.replicate (4 * 1024) (0xff : UInt8)).drop fal.length = List.replicate (4096 - fal.length) 0xff :=
    List.drop_replicate
  have hfill : (overwrite fls (52 * 1024) (List.replicate (4 * 1024) 0xff)).length = fls.length :=
    overwrite_length (by omega)
  rw [pyOverlay, List.take_of_length_le hfal, seekWrite_eq (p := 52 * 1024) (f := fls) (by omega), seekWrite_eq (by omega),
    overwrite_overwrite (by omega) (by omega), hrest]
  rfl

theorem pyStamp_eq {out : List UInt8} (h : 56 ≤ out.length) (hmax : out.length ≤ 4194304) :
    pyStamp out = .ok (assemble (out.drop 56) (List.replicate 16 0)) := by
  have hbig : ¬ 2 ^ 32 ≤ (out.drop 56).length := by
    rw [List.length_drop]
    omega
  have hver : (List.replicate 16 (0 : UInt8)).length = 16 := List.length_replicate
  set hd := head (out.drop 56) (List.replicate 16 0) with hhd
  have hlen : (hd ++ le 4 (sum hd).toNat).length = 56 := by
    rw [List.length_append, le_length, hhd, head_length _ hver]
  have hwrite : seekWrite out 0 (hd ++ le 4 (sum hd).toNat) = hd ++ le 4 (sum hd).toNat ++ out.drop 56 := by
    rw [seekWrite_eq (Nat.zero_le _), overwrite, hlen, List.take_zero, List.nil_append]
  rw [pyStamp, if_neg hbig, zlibCrc32_xor]
  show Except.ok (seekWrite out 0 (hd ++ le 4 (zlibCrc32 hd ^^^ 0xFFFFFFFF).toNat)) = _
  rw [zlibCrc32_xor, hwrite]
  rfl

/-- **What the script makes** of two files as they should be. -/
theorem makeImgFls_eq {fls fal : List UInt8} (hfls : 57344 ≤ fls.length) (hmax : fls.length ≤ 4194304)
    (hmagic : fls.take 4 = le 4 secbootMagicNo) (hfal : fal.length ≤ 4096) :
    makeImgFls true (some fls) (some fal) = .ok (pyResult fls fal) := by
  have h4 : ¬ fls.length < 4 := by omega
  have hnum : ¬ ofLe (fls.take 4) ≠ secbootMagicNo := by
    rw [hmagic]
    decide
  have hlen : (overwrite fls 53248 (pyArea fal)).length = fls.length := overwrite_length (by rw [pyArea_length hfal]; omega)
  have hstamp : pyStamp (pyOverlay fls fal) = .ok (pyResult fls fal) := by
    rw [pyOverlay_eq hfal hfls, pyStamp_eq (by omega) (by omega)]
    rfl
  simp only [makeImgFls, if_neg h4, if_neg hnum, hstamp]
  rfl

/-- The two images are the same when the areas and the versions are. -/
theorem result_eq_pyResult_iff {fls fal : List UInt8} (hfal : fal.length ≤ 4096) (hfls : 57344 ≤ fls.length) :
    result fls fal = pyResult fls fal ↔ (fls.drop 36).take 16 = List.replicate 16 0 ∧ cArea fls fal = pyArea fal := by
  have hver : ((fls.drop 36).take 16).length = 16 := ver_length hfls
  have hzero : (List.replicate 16 (0 : UInt8)).length = 16 := List.length_replicate
  have hbody : (overwrite fls (secbootImgTotalLen - fal.length) fal).drop 56 = (overwrite fls 53248 (cArea fls fal)).drop 56 := by
    rw [overwrite_cArea hfal hfls]
  -- the area in a file that it was written into
  have hslice : ∀ {a : List UInt8}, a.length = 4096 → (((overwrite fls 53248 a).drop 56).drop 53192).take 4096 = a := by
    intro a ha
    rw [List.drop_drop]
    have hs := slice_overwrite (c := fls) (p := 53248) a (by omega)
    rwa [ha] at hs
  rw [result, pyResult, hbody]
  constructor
  · intro h
    refine ⟨?_, ?_⟩
    · have hv := ver_assemble ((overwrite fls 53248 (cArea fls fal)).drop 56) hver
      rw [h, ver_assemble _ hzero] at hv
      exact hv.symm
    · have hb := congrArg (List.drop 56) h
      rw [drop_assemble _ hver, drop_assemble _ hzero] at hb
      rw [← hslice (cArea_length hfal hfls), hb, hslice (pyArea_length hfal)]
  · rintro ⟨hv, harea⟩
    rw [hv, harea]

/-- **When the two tools make the same file**: the FLS file has no version, and what it has in front of the FAL file,
with the FAL file behind it, reads like the FAL file with ones behind it. -/
theorem same_output_iff {h : Host} {fls fal : List UInt8} (hgrants : h.Grants fls.length) (hmin : 56 * 1024 ≤ fls.length)
    (hmax : fls.length ≤ 4 * 1024 * 1024) (hmagic : fls.take 4 = le 4 secbootMagicNo) (hne : fal ≠ [])
    (hfal : fal.length ≤ 4096) (pFls pOut : String) :
    ∃ a b, makeFal h pFls pOut (some fls) (some fal) = .wrote pOut a "" ∧ makeImgFls true (some fls) (some fal) = .ok b ∧
      (a = b ↔ (fls.drop 36).take 16 = List.replicate 16 0 ∧
        (fls.drop (52 * 1024)).take (4096 - fal.length) ++ fal = fal ++ List.replicate (4096 - fal.length) 0xff) :=
  ⟨result fls fal, pyResult fls fal, makeFal_wrote hgrants hmin hmax hmagic hne hfal pFls pOut,
    makeImgFls_eq hmin hmax hmagic hfal, result_eq_pyResult_iff hfal hmin⟩

theorem plainFls_drop {k : ℕ} (hk : 4 ≤ k) : plainFls.drop k = List.replicate (57344 - k) 0 := by
  have hrest : 57340 - (k - 4) = 57344 - k := by omega
  rw [plainFls, List.drop_append, le_length, List.drop_eq_nil_of_le (by rw [le_length]; exact hk), List.nil_append,
    List.drop_replicate, hrest]

/-- The plain FLS file and a FAL file that fills the area: the two tools make the same file. -/
theorem same_output_plain : ∃ a b,
    makeFal richHost "a.fls" "c.img" (some plainFls) (some (List.replicate 4096 1)) = .wrote "c.img" a "" ∧
      makeImgFls true (some plainFls) (some (List.replicate 4096 1)) = .ok b ∧ a = b := by
  have hlen := plainFls_length
  have hfal : (List.replicate 4096 (1 : UInt8)).length = 4096 := List.length_replicate
  have hgrants : richHost.Grants plainFls.length := ⟨rfl, rfl, rfl, rfl, hlen.le⟩
  have hmagic : plainFls.take 4 = le 4 secbootMagicNo := List.take_left' (le_length _ _)
  obtain ⟨a, b, ha, hb, hiff⟩ := same_output_iff hgrants (by omega) (by omega) hmagic
    (List.ne_nil_of_length_pos (by omega)) hfal.le "a.fls" "c.img"
  refine ⟨a, b, ha, hb, hiff.2 ⟨?_, ?_⟩⟩
  · rw [plainFls_drop (by decide), List.take_replicate]
    rfl
  · rw [hfal, Nat.sub_self, List.take_zero, List.nil_append, List.replicate_zero, List.append_nil]

/-- The plain FLS file and a FAL file of one byte: the two tools make different files. -/
theorem tools_differ : ∃ a b,
    makeFal richHost "a.fls" "c.img" (some plainFls) (some [1]) = .wrote "c.img" a "" ∧
      makeImgFls true (some plainFls) (some [1]) = .ok b ∧ a ≠ b := by
  have hlen := plainFls_length
  have hgrants : richHost.Grants plainFls.length := ⟨rfl, rfl, rfl, rfl, hlen.le⟩
  have hmagic : plainFls.take 4 = le 4 secbootMagicNo := List.take_left' (le_length _ _)
  have hmax : plainFls.length ≤ 4194304 := by omega
  refine ⟨_, _, makeFal_wrote hgrants hlen.ge hmax hmagic (by decide) (by decide) "a.fls" "c.img",
    makeImgFls_eq hlen.ge hmax hmagic (by decide), ?_⟩
  rw [Ne, result_eq_pyResult_iff (by decide) hlen.ge]
  rintro ⟨-, harea⟩
  -- the first byte of the area is that of the FLS file, or that of the FAL file
  have hfirst := congrArg List.head? harea
  have hc : cArea plainFls [1] = List.replicate 4095 0 ++ [1] := by
    rw [cArea, plainFls_drop (by decide), List.take_replicate]
    rfl
  rw [hc, List.replicate_succ] at hfirst
  cases hfirst

end W601.Tools
