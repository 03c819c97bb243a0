import W601.Lib.Cells
import W601.Lib.Crc

/-!
# The image tool (`make_fal.c`, `crc32.c`)

`make_fal` copies an FLS file, lays a FAL file over the end of the first 56 KiB, and renews the header
and its two checksums. Files are byte lists; the blocks that the program allocates are lists too, and an
access outside of its block gives `none`.

* `crc32_eq`: the table of `crc32.c` is that of CRC-32; `crc32_append`: it may be fed in parts.
* `image_eq`: what the program makes of two files that it can process.
* `makes_valid_image`: the parts of the image, and that the tool leaves its own output alone.
* `refuses_or_whole_iff`: for which files the program refuses or writes a whole image.
-/

namespace W601.Tools

open Cells

/-! ## `crc32.c` -/

/-- `crc32c_table`. -/
def crc32cTable : List (BitVec 32) :=
  [0x00000000, 0x77073096, 0xee0e612c, 0x990951ba, 0x076dc419, 0x706af48f, 0xe963a535, 0x9e6495a3,
   0x0edb8832, 0x79dcb8a4, 0xe0d5e91e, 0x97d2d988, 0x09b64c2b, 0x7eb17cbd, 0xe7b82d07, 0x90bf1d91,
   0x1db71064, 0x6ab020f2, 0xf3b97148, 0x84be41de, 0x1adad47d, 0x6ddde4eb, 0xf4d4b551, 0x83d385c7,
   0x136c9856, 0x646ba8c0, 0xfd62f97a, 0x8a65c9ec, 0x14015c4f, 0x63066cd9, 0xfa0f3d63, 0x8d080df5,
   0x3b6e20c8, 0x4c69105e, 0xd56041e4, 0xa2677172, 0x3c03e4d1, 0x4b04d447, 0xd20d85fd, 0xa50ab56b,
   0x35b5a8fa, 0x42b2986c, 0xdbbbc9d6, 0xacbcf940, 0x32d86ce3, 0x45df5c75, 0xdcd60dcf, 0xabd13d59,
   0x26d930ac, 0x51de003a, 0xc8d75180, 0xbfd06116, 0x21b4f4b5, 0x56b3c423, 0xcfba9599, 0xb8bda50f,
   0x2802b89e, 0x5f058808, 0xc60cd9b2, 0xb10be924, 0x2f6f7c87, 0x58684c11, 0xc1611dab, 0xb6662d3d,
   0x76dc4190, 0x01db7106, 0x98d220bc, 0xefd5102a, 0x71b18589, 0x06b6b51f, 0x9fbfe4a5, 0xe8b8d433,
   0x7807c9a2, 0x0f00f934, 0x9609a88e, 0xe10e9818, 0x7f6a0dbb, 0x086d3d2d, 0x91646c97, 0xe6635c01,
   0x6b6b51f4, 0x1c6c6162, 0x856530d8, 0xf262004e, 0x6c0695ed, 0x1b01a57b, 0x8208f4c1, 0xf50fc457,
   0x65b0d9c6, 0x12b7e950, 0x8bbeb8ea, 0xfcb9887c, 0x62dd1ddf, 0x15da2d49, 0x8cd37cf3, 0xfbd44c65,
   0x4db26158, 0x3ab551ce, 0xa3bc0074, 0xd4bb30e2, 0x4adfa541, 0x3dd895d7, 0xa4d1c46d, 0xd3d6f4fb,
   0x4369e96a, 0x346ed9fc, 0xad678846, 0xda60b8d0, 0x44042d73, 0x33031de5, 0xaa0a4c5f, 0xdd0d7cc9,
   0x5005713c, 0x270241aa, 0xbe0b1010, 0xc90c2086, 0x5768b525, 0x206f85b3, 0xb966d409, 0xce61e49f,
   0x5edef90e, 0x29d9c998, 0xb0d09822, 0xc7d7a8b4, 0x59b33d17, 0x2eb40d81, 0xb7bd5c3b, 0xc0ba6cad,
   0xedb88320, 0x9abfb3b6, 0x03b6e20c, 0x74b1d29a, 0xead54739, 0x9dd277af, 0x04db2615, 0x73dc1683,
   0xe3630b12, 0x94643b84, 0x0d6d6a3e, 0x7a6a5aa8, 0xe40ecf0b, 0x9309ff9d, 0x0a00ae27, 0x7d079eb1,
   0xf00f9344, 0x8708a3d2, 0x1e01f268, 0x6906c2fe, 0xf762575d, 0x806567cb, 0x196c3671, 0x6e6b06e7,
   0xfed41b76, 0x89d32be0, 0x10da7a5a, 0x67dd4acc, 0xf9b9df6f, 0x8ebeeff9, 0x17b7be43, 0x60b08ed5,
   0xd6d6a3e8, 0xa1d1937e, 0x38d8c2c4, 0x4fdff252, 0xd1bb67f1, 0xa6bc5767, 0x3fb506dd, 0x48b2364b,
   0xd80d2bda, 0xaf0a1b4c, 0x36034af6, 0x41047a60, 0xdf60efc3, 0xa867df55, 0x316e8eef, 0x4669be79,
   0xcb61b38c, 0xbc66831a, 0x256fd2a0, 0x5268e236, 0xcc0c7795, 0xbb0b4703, 0x220216b9, 0x5505262f,
   0xc5ba3bbe, 0xb2bd0b28, 0x2bb45a92, 0x5cb36a04, 0xc2d7ffa7, 0xb5d0cf31, 0x2cd99e8b, 0x5bdeae1d,
   0x9b64c2b0, 0xec63f226, 0x756aa39c, 0x026d930a, 0x9c0906a9, 0xeb0e363f, 0x72076785, 0x05005713,
   0x95bf4a82, 0xe2b87a14, 0x7bb12bae, 0x0cb61b38, 0x92d28e9b, 0xe5d5be0d, 0x7cdcefb7, 0x0bdbdf21,
   0x86d3d2d4, 0xf1d4e242, 0x68ddb3f8, 0x1fda836e, 0x81be16cd, 0xf6b9265b, 0x6fb077e1, 0x18b74777,
   0x88085ae6, 0xff0f6a70, 0x66063bca, 0x11010b5c, 0x8f659eff, 0xf862ae69, 0x616bffd3, 0x166ccf45,
   0xa00ae278, 0xd70dd2ee, 0x4e048354, 0x3903b3c2, 0xa7672661, 0xd06016f7, 0x4969474d, 0x3e6e77db,
   0xaed16a4a, 0xd9d65adc, 0x40df0b66, 0x37d83bf0, 0xa9bcae53, 0xdebb9ec5, 0x47b2cf7f, 0x30b5ffe9,
   0xbdbdf21c, 0xcabac28a, 0x53b39330, 0x24b4a3a6, 0xbad03605, 0xcdd70693, 0x54de5729, 0x23d967bf,
   0xb3667a2e, 0xc4614ab8, 0x5d681b02, 0x2a6f2b94, 0xb40bbe37, 0xc30c8ea1, 0x5a05df1b, 0x2d02ef8d]

/-- `struct crc32_cfg`. -/
structure Crc32Cfg where
  val : BitVec 32
  xorout : BitVec 32
  flags : BitVec 32

/-- One round of the loop of `crc32`. -/
def crcRound (value : BitVec 32) (data : UInt8) : BitVec 32 :=
  crc32cTable.getD ((value ^^^ data.toBitVec.setWidth 32) &&& 0xFF#32).toNat 0 ^^^ (value >>> 8)

/-- `crc32`: the answer and the new configuration. -/
def crc32 (cfg : Crc32Cfg) (buff : List UInt8) : BitVec 32 × Crc32Cfg :=
  let value := buff.foldl crcRound cfg.val
  (value ^^^ cfg.xorout, { cfg with val := value })

/-- The polynomial of CRC-32, reflected. -/
def poly : BitVec 32 := 0xEDB88320

theorem isTable_crc32c : Crc.IsTable poly fun i => crc32cTable.getD i 0 := by
  unfold Crc.IsTable
  decide +kernel

/-- **The function of `crc32.c`** is CRC-32 with the given start and final values. -/
theorem crc32_eq (cfg : Crc32Cfg) (buff : List UInt8) : (crc32 cfg buff).1 = Crc.crc poly cfg.val buff ^^^ cfg.xorout := by
  have hround : crcRound = Crc.byte poly := by
    funext v b
    exact (Crc.byte_of_table isTable_crc32c (by decide) v b).symm
  rw [crc32, hround]
  rfl

/-- Two buffers, one behind the other, with one configuration. -/
theorem crc32_append (cfg : Crc32Cfg) (front back : List UInt8) :
    crc32 (crc32 cfg front).2 back = crc32 cfg (front ++ back) := by
  simp only [crc32, List.foldl_append]

/-! ## `make_fal.c` -/

/-- `SECBOOT_IMG_ADDR`. -/
def secbootImgAddr : ℕ := 0x2100

/-- `SECBOOT_HEADER_LEN`. -/
def secbootHeaderLen : ℕ := 0x100

/-- `SECBOOT_IMG_TOTAL_LEN`. -/
def secbootImgTotalLen : ℕ := 1024 * 56

/-- `SECBOOT_MAGIC_NO`. -/
def secbootMagicNo : ℕ := 0xA0FFFF9F

/-- `FLS_FILE_MAX_SIZE`. -/
def flsFileMaxSize : ℕ := 1024 * 1024 * 4

/-- `FAL_FILE_MAX_SIZE`. -/
def falFileMaxSize : ℕ := 1024 * 4

/-- A number in `k` bytes, the low one first. -/
def le (k n : ℕ) : List UInt8 := (List.range k).map fun j => UInt8.ofNat (n / 256 ^ j)

/-- The number in some bytes, the low one first. -/
def ofLe (s : List UInt8) : ℕ := s.foldr (fun b n => b.toNat + 256 * n) 0

/-- `n` bytes of a block from index `i` on. -/
def bytesAt (m : List UInt8) (i n : ℕ) : Option (List UInt8) :=
  if i + n ≤ m.length then some ((m.drop i).take n) else none

/-- A block in which `d` is stored from index `i` on. -/
def putAt (m : List UInt8) (i : ℕ) (d : List UInt8) : Option (List UInt8) :=
  if i + d.length ≤ m.length then some (overwrite m i d) else none

/-- The fields of a structure are stored, one behind the other. -/
def putFields (m : List UInt8) (i : ℕ) : List (List UInt8) → Option (List UInt8)
  | [] => some m
  | f :: fs => (putAt m i f).bind fun m => putFields m (i + f.length) fs

/-- `struct img_head`. -/
structure ImgHead where
  magic : ℕ
  imgType : ℕ
  zipType : ℕ
  appAddr : ℕ
  appLen : ℕ
  headCrc : ℕ
  imgAddr : ℕ
  imgLen : ℕ
  imgCrc : ℕ
  imgNo : ℕ
  ver : List UInt8

/-- `sizeof(struct img_head)`. -/
def sizeofImgHead : ℕ := 52

/-- The numbers of the structure in memory. -/
def ImgHead.fields (x : ImgHead) : List (List UInt8) :=
  [le 4 x.magic, le 2 x.imgType, le 2 x.zipType, le 4 x.appAddr, le 4 x.appLen, le 4 x.headCrc, le 4 x.imgAddr,
   le 4 x.imgLen, le 4 x.imgCrc, le 4 x.imgNo]

/-- The structure in memory. -/
def ImgHead.bytes (x : ImgHead) : List UInt8 := x.fields.flatten ++ x.ver

/-- The values that `main` sets, with the version `ver`. -/
def newHead (appLen : ℕ) (headCrc : BitVec 32) (ver : List UInt8) : ImgHead where
  magic := secbootMagicNo
  imgType := 0
  zipType := 0
  appAddr := secbootImgAddr - secbootHeaderLen
  appLen := appLen
  headCrc := headCrc.toNat
  imgAddr := 0
  imgLen := 0
  imgCrc := 0
  imgNo := 0
  ver := ver

/-- The configuration with which `main` calls `crc32`. -/
def crcCfg : Crc32Cfg := ⟨0xffffffff, 0, 0⟩

/-- `m_out` in `main`: the FLS file with the FAL file over the end of the area of the boot loader. -/
def overlay (fls fal : List UInt8) : Option (List UInt8) := do
  let mOut ← putAt (List.replicate fls.length 0) 0 fls
  putAt mOut (secbootImgTotalLen - fal.length) fal

/-- `main` from the first checksum to the last store into `m_out`. -/
def stamp (mOut : List UInt8) : Option (List UInt8) := do
  let sOut := mOut.length
  let body ← bytesAt mOut 56 (sOut - 56)
  -- `ver` is not set
  let mOut ← putFields mOut 0 (newHead (sOut - 56) (crc32 crcCfg body).1 []).fields
  let head ← bytesAt mOut 0 sizeofImgHead
  putAt mOut sizeofImgHead (le 4 (crc32 crcCfg head).1.toNat)

/-- `main` from the allocation of `m_out` on, up to the output. -/
def image (fls fal : List UInt8) : Option (List UInt8) := (overlay fls fal).bind stamp

/-- What the host grants: the three blocks, the output file, and how many bytes that file takes. -/
structure Host where
  memFls : Bool
  memFal : Bool
  memOut : Bool
  create : Bool
  room : ℕ

/-- How a run of the program ends. -/
inductive Outcome
  /-- No output file is written. -/
  | refused (stdout : String)
  /-- An index outside of its block is used. -/
  | outOfBounds
  /-- These bytes are in the output file. -/
  | wrote (path : String) (out : List UInt8) (stdout : String)

/-- `file_read`: the bytes that it leaves in the buffer. It answers with their number. -/
def fileRead (file : Option (List UInt8)) (len : ℕ) : List UInt8 :=
  match file with
  | none => []
  | some bytes =>
    -- `fseek` answers 0 when it succeeds, whatever the size of the file is
    let fLen := 0
    if fLen > len then [] else bytes.take len

/-- The block that is filled with zeros before `file_read`. -/
def block (bytes : List UInt8) (size : ℕ) : List UInt8 := bytes ++ List.replicate (size - bytes.length) 0

/-- `file_write`: the bytes that are in the file, if it is created. -/
def fileWrite (h : Host) (buff : List UInt8) : Option (List UInt8) := if h.create then some (buff.take h.room) else none

def noMemory : String := "err:there is not enough memory! exit.\n"

/-- `main` behind its arguments. `fls` and `fal` are the two input files. -/
def makeFal (h : Host) (pFls pOut : String) (fls fal : Option (List UInt8)) : Outcome :=
  if !h.memFls then .refused noMemory
  else
    let mFls := fileRead fls flsFileMaxSize
    if mFls.length = 0 then .refused ("err:open FLS file failed! path:" ++ pFls ++ "\n")
    else if !h.memFal then .refused noMemory
    else
      let mFal := fileRead fal falFileMaxSize
      -- the path of the FLS file is in this message too
      if mFal.length = 0 then .refused ("err:open FAL file failed! path:" ++ pFls ++ "\n")
      else if ofLe ((block mFls flsFileMaxSize).take 4) ≠ secbootMagicNo then .refused "err:This is not a FLS file!\n"
      else if !h.memOut then .refused noMemory
      else
        match image mFls mFal with
        | none => .outOfBounds
        | some mOut =>
          match fileWrite h mOut with
          | none => .refused ("err:output file failed\n path:" ++ pOut)
          | some out => .wrote pOut out (if out.length ≠ mOut.length then "err:output file failed\n path:" ++ pOut else "")

/-- The text for a wrong number of arguments. -/
def usage : String := "param cnt error!\nparam 0: .\nparam 1: input FLS file\nparam 2: input FAL file\nparam 3: output FLS file\n"

/-- The paths in the arguments: the FLS file, the FAL file and the output. -/
def paths : List String → Option (String × String × String)
  | [_, pFls, pFal, pOut] => some (pFls, pFal, pOut)
  | [_, pFls, pFal] => some (pFls, pFal, pFls)
  | _ => none

/-- `main`. -/
def main (h : Host) (argv : List String) (files : String → Option (List UInt8)) : Outcome :=
  match paths argv with
  | none => .refused usage
  | some (pFls, pFal, pOut) => makeFal h pFls pOut (files pFls) (files pFal)

/-! ### What the image is -/

@[simp] theorem le_length (k n : ℕ) : (le k n).length = k := by simp [le]

/-- CRC-32 from all ones on, without a final exclusive or. -/
def sum (s : List UInt8) : BitVec 32 := Crc.crc poly 0xffffffff s

theorem crc32_crcCfg (s : List UInt8) : (crc32 crcCfg s).1 = sum s := by
  rw [crc32_eq]
  exact BitVec.xor_zero

/-- The header for what follows from byte 56 on, and for a version. -/
def head (body ver : List UInt8) : List UInt8 := (newHead body.length (sum body) ver).bytes

/-- The header, its checksum, and what follows. -/
def assemble (body ver : List UInt8) : List UInt8 := head body ver ++ le 4 (sum (head body ver)).toNat ++ body

theorem fields_length (x : ImgHead) : x.fields.flatten.length = 36 := by simp [ImgHead.fields]

theorem head_length (body : List UInt8) {ver : List UInt8} (h : ver.length = 16) : (head body ver).length = 52 := by
  have hver : (newHead body.length (sum body) ver).ver = ver := rfl
  rw [head, ImgHead.bytes, List.length_append, fields_length, hver, h]

theorem putFields_eq (fs : List (List UInt8)) : ∀ {m : List UInt8} {i : ℕ}, i + fs.flatten.length ≤ m.length →
    putFields m i fs = some (overwrite m i fs.flatten) := by
  induction fs with
  | nil => intro m i _; simp [putFields]
  | cons f fs ih =>
    intro m i h
    rw [List.flatten_cons, List.length_append] at h
    have hf : i + f.length ≤ m.length := by omega
    rw [putFields, putAt, if_pos hf, Option.bind_some, ih (by rw [overwrite_length hf]; omega),
      overwrite_append (by omega), List.flatten_cons]

theorem putAt_eq {m d : List UInt8} {i : ℕ} (h : i + d.length ≤ m.length) : putAt m i d = some (overwrite m i d) := if_pos h

theorem bytesAt_eq {m : List UInt8} {i n : ℕ} (h : i + n ≤ m.length) : bytesAt m i n = some ((m.drop i).take n) := if_pos h

/-- The first fields of the header are put over the start of a block. -/
theorem take_overwrite_fields (m : List UInt8) {f : List UInt8} (hf : f.length = 36) :
    (overwrite m 0 f).take 52 = f ++ (m.drop 36).take 16 := by
  rw [overwrite, List.take_zero, List.nil_append, List.take_append, hf, List.take_of_length_le (by omega), Nat.zero_add]

/-- **What the checksums are put over** keeps its version and everything from byte 56 on. -/
theorem stamp_eq {m : List UInt8} (h : 56 ≤ m.length) : stamp m = some (assemble (m.drop 56) ((m.drop 36).take 16)) := by
  have hbody : bytesAt m 56 (m.length - 56) = some (m.drop 56) := by
    rw [bytesAt_eq (by omega), List.take_of_length_le (by rw [List.length_drop])]
  have hfields := putFields_eq (newHead (m.length - 56) (sum (m.drop 56)) []).fields (m := m) (i := 0)
    (by rw [fields_length]; omega)
  set f := (newHead (m.length - 56) (sum (m.drop 56)) []).fields.flatten with hf
  have hf36 : f.length = 36 := fields_length _
  have hlen : (overwrite m 0 f).length = m.length := overwrite_length (by omega)
  have hfhead : f ++ (m.drop 36).take 16 = head (m.drop 56) ((m.drop 36).take 16) := by
    rw [hf, head, ImgHead.bytes, List.length_drop]
    rfl
  have hhead : bytesAt (overwrite m 0 f) 0 sizeofImgHead = some (head (m.drop 56) ((m.drop 36).take 16)) := by
    rw [bytesAt_eq (by unfold sizeofImgHead; omega), List.drop_zero, ← hfhead]
    exact congrArg some (take_overwrite_fields m hf36)
  simp only [stamp, Option.bind_eq_bind, Option.bind_some, hbody, crc32_crcCfg, hfields, hhead]
  rw [putAt_eq (by rw [le_length, hlen]; unfold sizeofImgHead; omega)]
  have htake : (overwrite m 0 f).take sizeofImgHead = head (m.drop 56) ((m.drop 36).take 16) :=
    (take_overwrite_fields m hf36).trans hfhead
  have hdrop : (overwrite m 0 f).drop (sizeofImgHead + 4) = m.drop 56 := drop_overwrite (by unfold sizeofImgHead; omega) (Nat.zero_le _)
  rw [overwrite, htake, le_length, hdrop]
  rfl

theorem overlay_eq {fls fal : List UInt8} (hfal : fal.length ≤ falFileMaxSize) (hfls : secbootImgTotalLen ≤ fls.length) :
    overlay fls fal = some (overwrite fls (secbootImgTotalLen - fal.length) fal) := by
  have htotal : secbootImgTotalLen = 57344 := rfl
  have hmax : falFileMaxSize = 4096 := rfl
  have hcopy : putAt (List.replicate fls.length 0) 0 fls = some fls := by
    rw [putAt_eq (by simp), overwrite_of_le (by simp)]
  simp only [overlay, hcopy, Option.bind_eq_bind, Option.bind_some]
  exact putAt_eq (by omega)

/-- The image that is made of two files. -/
def result (fls fal : List UInt8) : List UInt8 :=
  assemble ((overwrite fls (secbootImgTotalLen - fal.length) fal).drop 56) ((fls.drop 36).take 16)

/-- **What the program makes** of an FLS file that is long enough. -/
theorem image_eq {fls fal : List UInt8} (hfal : fal.length ≤ falFileMaxSize) (hfls : secbootImgTotalLen ≤ fls.length) :
    image fls fal = some (result fls fal) := by
  have htotal : secbootImgTotalLen = 57344 := rfl
  have hmax : falFileMaxSize = 4096 := rfl
  unfold result
  set m := overwrite fls (secbootImgTotalLen - fal.length) fal with hm
  have hlen : m.length = fls.length := overwrite_length (by omega)
  -- the version is in front of the area of the FAL file
  have hver : (m.drop 36).take 16 = (fls.drop 36).take 16 := by
    rw [hm, overwrite_drop fal (by omega) (by omega), take_overwrite fal (by omega) (by rw [List.length_drop]; omega)]
  rw [image, overlay_eq hfal hfls, Option.bind_some, ← hm, stamp_eq (by omega), hver]

/-! ### Its parts -/

section Parts

variable (body : List UInt8) {ver : List UInt8} (hver : ver.length = 16)
include hver

theorem take_assemble : (assemble body ver).take 52 = head body ver := by
  rw [assemble, List.append_assoc]
  exact List.take_left' (head_length body hver)

theorem drop_assemble : (assemble body ver).drop 56 = body := by
  rw [assemble]
  apply List.drop_left'
  rw [List.length_append, head_length body hver, le_length]

theorem crc_assemble : ((assemble body ver).drop 52).take 4 = le 4 (sum (head body ver)).toNat := by
  rw [assemble, List.append_assoc, List.drop_left' (head_length body hver)]
  exact List.take_left' (le_length _ _)

theorem ver_assemble : ((assemble body ver).drop 36).take 16 = ver := by
  rw [assemble, head, ImgHead.bytes, List.append_assoc, List.append_assoc, List.drop_left' (fields_length _)]
  exact List.take_left' hver

theorem assemble_length : (assemble body ver).length = 56 + body.length := by
  rw [assemble, List.length_append, List.length_append, head_length body hver, le_length]

end Parts

theorem magic_assemble (body ver : List UInt8) : (assemble body ver).take 4 = le 4 secbootMagicNo := by
  rw [assemble, head, ImgHead.bytes, ImgHead.fields, List.flatten_cons]
  simp only [List.append_assoc]
  exact List.take_left' (le_length _ _)

section Result

variable {fls fal : List UInt8} (hfal : fal.length ≤ falFileMaxSize) (hfls : secbootImgTotalLen ≤ fls.length)
include hfls

theorem ver_length : ((fls.drop 36).take 16).length = 16 := by
  have htotal : secbootImgTotalLen = 57344 := rfl
  rw [List.length_take, List.length_drop]
  omega

/-- Behind the header the image is the overlay. -/
theorem drop_result (fal : List UInt8) {k : ℕ} (hk : 56 ≤ k) :
    (result fls fal).drop k = (overwrite fls (secbootImgTotalLen - fal.length) fal).drop k := by
  obtain ⟨j, rfl⟩ : ∃ j, k = 56 + j := ⟨k - 56, by omega⟩
  rw [← List.drop_drop, ← List.drop_drop, result, drop_assemble _ (ver_length hfls)]

include hfal

theorem overlay_length : (overwrite fls (secbootImgTotalLen - fal.length) fal).length = fls.length := by
  have htotal : secbootImgTotalLen = 57344 := rfl
  have hmax : falFileMaxSize = 4096 := rfl
  exact overwrite_length (by omega)

theorem result_length : (result fls fal).length = fls.length := by
  have htotal : secbootImgTotalLen = 57344 := rfl
  rw [result, assemble_length _ (ver_length hfls), List.length_drop, overlay_length hfal hfls]
  omega

/-- The FAL file is in the image. -/
theorem slice_result : ((result fls fal).drop (secbootImgTotalLen - fal.length)).take fal.length = fal := by
  have htotal : secbootImgTotalLen = 57344 := rfl
  have hmax : falFileMaxSize = 4096 := rfl
  rw [drop_result hfls fal (by omega), slice_overwrite fal (by omega)]

/-- The other bytes behind the header are those of the FLS file. -/
theorem getElem?_result {i : ℕ} (hi : 56 ≤ i) (hout : i < secbootImgTotalLen - fal.length ∨ secbootImgTotalLen ≤ i) :
    (result fls fal)[i]? = fls[i]? := by
  have htotal : secbootImgTotalLen = 57344 := rfl
  have hmax : falFileMaxSize = 4096 := rfl
  have hbody : (result fls fal)[i]? = (overwrite fls (secbootImgTotalLen - fal.length) fal)[i]? := by
    have hhead := congrArg List.head? (drop_result hfls fal hi)
    rwa [List.head?_drop, List.head?_drop] at hhead
  rw [hbody]
  obtain hfront | hbehind := hout
  · have htake := congrArg (·[i]?) (take_overwrite fal (le_refl (secbootImgTotalLen - fal.length)) (by omega) (c := fls))
    simpa [List.getElem?_take, hfront] using htake
  · have hdrop := congrArg List.head? (drop_overwrite (p := secbootImgTotalLen - fal.length) (k := i) (c := fls) (d := fal)
      (by omega) (by omega))
    rwa [List.head?_drop, List.head?_drop] at hdrop

/-- The program leaves its own output alone. -/
theorem result_result : result (result fls fal) fal = result fls fal := by
  have htotal : secbootImgTotalLen = 57344 := rfl
  have hver : ((result fls fal).drop 36).take 16 = (fls.drop 36).take 16 := ver_assemble _ (ver_length hfls)
  conv_lhs => rw [result]
  rw [overwrite_self (slice_result hfal hfls), hver, drop_result hfls fal le_rfl]
  rfl

end Result

/-! ### The whole program -/

theorem fileRead_eq (file : Option (List UInt8)) (len : ℕ) : fileRead file len = (file.getD []).take len := by
  cases file with
  | none => simp [fileRead]
  | some bytes => rfl

theorem length_take_eq_zero {s : List UInt8} {n : ℕ} (hn : 0 < n) : (s.take n).length = 0 ↔ s = [] := by
  rw [List.length_take, ← List.length_eq_zero_iff]
  omega

theorem le_succ (k n : ℕ) : le (k + 1) n = UInt8.ofNat n :: le k (n / 256) := by
  simp only [le, List.range_succ_eq_map, List.map_cons, List.map_map, pow_zero, Nat.div_one]
  congr 1
  refine List.map_congr_left fun j _ => ?_
  simp only [Function.comp_apply, Nat.succ_eq_add_one, pow_succ', Nat.div_div_eq_div_mul]

theorem le_ofLe (s : List UInt8) : le s.length (ofLe s) = s := by
  induction s with
  | nil => rfl
  | cons b s ih =>
    have hb := b.toNat_lt
    have hcons : ofLe (b :: s) = b.toNat + 256 * ofLe s := rfl
    have hdiv : (b.toNat + 256 * ofLe s) / 256 = ofLe s := by omega
    have hlow : UInt8.ofNat (b.toNat + 256 * ofLe s) = b := by
      rw [← UInt8.toNat_inj, UInt8.toNat_ofNat']
      omega
    rw [List.length_cons, le_succ, hcons, hdiv, hlow, ih]

/-- The check of the magic number sees whether the file starts with its bytes. -/
theorem magic_iff (fls : List UInt8) :
    ofLe ((block (fls.take flsFileMaxSize) flsFileMaxSize).take 4) = secbootMagicNo ↔ fls.take 4 = le 4 secbootMagicNo := by
  have hmax : flsFileMaxSize = 4194304 := rfl
  set x := (block (fls.take flsFileMaxSize) flsFileMaxSize).take 4 with hx
  have hlen : x.length = 4 := by
    rw [hx, List.length_take, block, List.length_append, List.length_replicate, List.length_take]
    omega
  have hmagic : ofLe x = secbootMagicNo ↔ x = le 4 secbootMagicNo := by
    constructor
    · intro h
      rw [← h, ← hlen, le_ofLe]
    · intro h
      rw [h]
      decide
  rw [hmagic]
  by_cases hfls : 4 ≤ fls.length
  · have heq : x = fls.take 4 := by
      rw [hx, block, List.take_append_of_le_length (by rw [List.length_take]; omega), List.take_take]
      rfl
    rw [heq]
  · -- a file that is too short has a zero where the last byte of the number is
    have hlast : x[3]? = some 0 := by
      rw [hx, List.getElem?_take_of_lt (by omega), block, List.getElem?_append_right (by rw [List.length_take]; omega),
        List.getElem?_replicate_of_lt (by rw [List.length_take]; omega)]
    constructor
    · intro h
      rw [h] at hlast
      exact absurd hlast (by decide)
    · intro h
      have hshort := congrArg List.length h
      rw [List.length_take, le_length] at hshort
      omega

/-- The program gives up before it makes an image. -/
def Early (h : Host) (fls fal : List UInt8) : Prop :=
  h.memFls = false ∨ h.memFal = false ∨ h.memOut = false ∨ fls = [] ∨ fal = [] ∨ fls.take 4 ≠ le 4 secbootMagicNo

def Outcome.Refused (o : Outcome) : Prop := ∃ stdout, o = .refused stdout

section Program

variable {h : Host} {fls fal : Option (List UInt8)} (pFls pOut : String)

theorem refused_of_early (he : Early h (fls.getD []) (fal.getD [])) : (makeFal h pFls pOut fls fal).Refused := by
  simp only [makeFal, fileRead_eq, length_take_eq_zero (show 0 < flsFileMaxSize by decide),
    length_take_eq_zero (show 0 < falFileMaxSize by decide), ne_eq, magic_iff]
  split_ifs with h1 h2 h3 h4 h5 h6
  · exact ⟨_, rfl⟩
  · exact ⟨_, rfl⟩
  · exact ⟨_, rfl⟩
  · exact ⟨_, rfl⟩
  · exact ⟨_, rfl⟩
  · obtain he | he | he | he | he | he := he
    · simp [he] at h1
    · simp [he] at h3
    · simp [he] at h6
    · exact absurd he h2
    · exact absurd he h4
    · exact absurd h5 he
  · exact ⟨_, rfl⟩

/-- What the program does otherwise. -/
theorem makeFal_eq (he : ¬ Early h (fls.getD []) (fal.getD [])) :
    makeFal h pFls pOut fls fal =
      match image ((fls.getD []).take flsFileMaxSize) ((fal.getD []).take falFileMaxSize) with
      | none => .outOfBounds
      | some mOut =>
        match fileWrite h mOut with
        | none => .refused ("err:output file failed\n path:" ++ pOut)
        | some out => .wrote pOut out (if out.length ≠ mOut.length then "err:output file failed\n path:" ++ pOut else "") := by
  simp only [Early, not_or, Bool.not_eq_false, not_not] at he
  obtain ⟨h1, h3, h6, h2, h4, h5⟩ := he
  simp only [makeFal, fileRead_eq, length_take_eq_zero (show 0 < flsFileMaxSize by decide),
    length_take_eq_zero (show 0 < falFileMaxSize by decide), ne_eq, magic_iff, h1, h2, h3, h4, h5, h6]
  rfl

end Program

/-- The host grants everything that an image of `n` bytes needs. -/
def Host.Grants (h : Host) (n : ℕ) : Prop :=
  h.memFls = true ∧ h.memFal = true ∧ h.memOut = true ∧ h.create = true ∧ n ≤ h.room

theorem not_early {h : Host} {fls fal : List UInt8} (h1 : h.memFls = true) (h2 : h.memFal = true) (h3 : h.memOut = true)
    (hfls : secbootImgTotalLen ≤ fls.length) (hmagic : fls.take 4 = le 4 secbootMagicNo) (hne : fal ≠ []) :
    ¬ Early h fls fal := by
  rintro (he | he | he | he | he | he)
  · rw [h1] at he
    cases he
  · rw [h2] at he
    cases he
  · rw [h3] at he
    cases he
  · rw [he] at hfls
    exact absurd hfls (by decide)
  · exact hne he
  · exact he hmagic

/-- The program makes an image of two files that are as they should be. -/
theorem makeFal_wrote {h : Host} {fls fal : List UInt8} (hgrants : h.Grants fls.length)
    (hfls : secbootImgTotalLen ≤ fls.length) (hmax : fls.length ≤ flsFileMaxSize)
    (hmagic : fls.take 4 = le 4 secbootMagicNo) (hne : fal ≠ []) (hfal : fal.length ≤ falFileMaxSize) (pFls pOut : String) :
    makeFal h pFls pOut (some fls) (some fal) = .wrote pOut (result fls fal) "" := by
  obtain ⟨h1, h2, h3, hcreate, hroom⟩ := hgrants
  have hlate : ¬ Early h ((some fls).getD []) ((some fal).getD []) := not_early h1 h2 h3 hfls hmagic hne
  have hwrite : fileWrite h (result fls fal) = some (result fls fal) := by
    rw [fileWrite, if_pos hcreate, List.take_of_length_le (by rw [result_length hfal hfls]; exact hroom)]
  rw [makeFal_eq pFls pOut hlate]
  simp only [Option.getD_some, List.take_of_length_le hmax, List.take_of_length_le hfal, image_eq hfal hfls, hwrite]
  simp

/-- **The image is valid.** Of an FLS file of 56 KiB to 4 MiB and a FAL file of at most 4 KiB the program makes a
file of the same size. The FAL file ends at 56 KiB, the other bytes from 56 on stay. The header has its values, the
checksum of what follows and the old version; its own checksum stands behind it. Applied to its output, the program
writes it again. -/
theorem makes_valid_image {h : Host} {argv : List String} {files : String → Option (List UInt8)} {pFls pFal pOut : String}
    {fls fal : List UInt8} (hpaths : paths argv = some (pFls, pFal, pOut)) (hFls : files pFls = some fls)
    (hFal : files pFal = some fal) (hgrants : h.Grants fls.length) (hmin : 56 * 1024 ≤ fls.length)
    (hmax : fls.length ≤ 4 * 1024 * 1024) (hmagic : fls.take 4 = le 4 secbootMagicNo) (hne : fal ≠ [])
    (hfal : fal.length ≤ 4096) :
    ∃ out, main h argv files = .wrote pOut out "" ∧
      out.length = fls.length ∧
      (out.drop (56 * 1024 - fal.length)).take fal.length = fal ∧
      (∀ i, 56 ≤ i → i < 56 * 1024 - fal.length ∨ 56 * 1024 ≤ i → out[i]? = fls[i]?) ∧
      out.take 52 = ImgHead.bytes
        { magic := secbootMagicNo, imgType := 0, zipType := 0, appAddr := 0x2000, appLen := fls.length - 56,
          headCrc := (Crc.crc poly 0xFFFFFFFF (out.drop 56)).toNat, imgAddr := 0, imgLen := 0, imgCrc := 0, imgNo := 0,
          ver := (fls.drop 36).take 16 } ∧
      (out.drop 52).take 4 = le 4 (Crc.crc poly 0xFFFFFFFF (out.take 52)).toNat ∧
      ∀ pFls' pOut', makeFal h pFls' pOut' (some out) (some fal) = .wrote pOut' out "" := by
  have hfls : secbootImgTotalLen ≤ fls.length := hmin
  have hlen : (result fls fal).length = fls.length := result_length hfal hfls
  have hver := ver_length hfls
  have hbody : (result fls fal).drop 56 = (overwrite fls (secbootImgTotalLen - fal.length) fal).drop 56 :=
    drop_result hfls fal le_rfl
  have hhead : (result fls fal).take 52 = head ((result fls fal).drop 56) ((fls.drop 36).take 16) := by
    rw [hbody]
    exact take_assemble _ hver
  refine ⟨result fls fal, ?_, hlen, slice_result hfal hfls, fun i hi hout => getElem?_result hfal hfls hi hout, ?_, ?_, ?_⟩
  · rw [main, hpaths]
    simp only [hFls, hFal]
    exact makeFal_wrote hgrants hfls hmax hmagic hne hfal pFls pOut
  · rw [hhead, head, List.length_drop, hlen]
    rfl
  · rw [hhead, hbody]
    exact crc_assemble _ hver
  · intro pFls' pOut'
    have hstart : (result fls fal).take 4 = le 4 secbootMagicNo := magic_assemble _ _
    rw [← hlen] at hgrants hfls hmax
    rw [makeFal_wrote hgrants hfls hmax hstart hne hfal pFls' pOut', result_result hfal hmin]

/-- An FLS file of 56 KiB: the magic number and zeros. -/
def plainFls : List UInt8 := le 4 secbootMagicNo ++ List.replicate 57340 0

theorem plainFls_length : plainFls.length = 57344 := by
  rw [plainFls, List.length_append, le_length, List.length_replicate]

/-- Two files as they should be. -/
def plainFiles (p : String) : Option (List UInt8) :=
  if p = "a.fls" then some plainFls else if p = "b.fal" then some [1, 2, 3] else none

/-- A host that grants everything. -/
def richHost : Host := ⟨true, true, true, true, 57344⟩

theorem makes_valid_image_plain : ∃ out, main richHost ["make_fal", "a.fls", "b.fal"] plainFiles = .wrote "a.fls" out "" ∧
    out.length = 57344 ∧ (out.drop 57341).take 3 = [1, 2, 3] := by
  have hlen := plainFls_length
  have hgrants : richHost.Grants plainFls.length := ⟨rfl, rfl, rfl, rfl, hlen.le⟩
  have hmagic : plainFls.take 4 = le 4 secbootMagicNo := List.take_left' (le_length _ _)
  obtain ⟨out, hout, hsize, hfal, -⟩ := @makes_valid_image richHost ["make_fal", "a.fls", "b.fal"] plainFiles "a.fls" "b.fal"
    "a.fls" plainFls [1, 2, 3] rfl rfl rfl hgrants (by omega) (by omega) hmagic (by decide) (by decide)
  exact ⟨out, hout, hsize.trans hlen, hfal⟩

/-! ### What the program refuses -/

/-- The program refuses, or it stays inside of its blocks and writes a file of the length of the FLS file with the whole
FAL file in it. It refuses files that are too large, and an FLS file that has no area for the FAL file. -/
def RefusesOrWhole (o : Outcome) (fls fal : List UInt8) : Prop :=
  (o.Refused ∨ ∃ path out stdout, o = .wrote path out stdout ∧ out.length = fls.length ∧ fal <:+: out) ∧
  (flsFileMaxSize < fls.length ∨ falFileMaxSize < fal.length ∨ fls.length < secbootImgTotalLen → o.Refused)

/-- The files and the host for which it does: it gives up early, or the FLS file has the area and the output file cannot be
created, or the sizes are right and the output file takes everything. -/
def Proper (h : Host) (fls fal : List UInt8) : Prop :=
  Early h fls fal ∨ (secbootImgTotalLen ≤ fls.length ∧
    (h.create = false ∨ (fls.length ≤ flsFileMaxSize ∧ fal.length ≤ falFileMaxSize ∧ fls.length ≤ h.room)))

theorem image_none {fls fal : List UInt8} (hfls : fls.length < secbootImgTotalLen) (hfal : fal.length ≤ falFileMaxSize) :
    image fls fal = none := by
  have htotal : secbootImgTotalLen = 57344 := rfl
  have hmax : falFileMaxSize = 4096 := rfl
  have hcopy : putAt (List.replicate fls.length 0) 0 fls = some fls := by
    rw [putAt_eq (by simp), overwrite_of_le (by simp)]
  have hout : putAt fls (secbootImgTotalLen - fal.length) fal = none := if_neg (by omega)
  simp only [image, overlay, hcopy, Option.bind_eq_bind, Option.bind_some, hout, Option.bind_none]

section Refusal

variable {h : Host} {fls fal : Option (List UInt8)} (pFls pOut : String)

/-- Without an area for the FAL file the copy leaves its block. -/
theorem makeFal_short (he : ¬ Early h (fls.getD []) (fal.getD [])) (hfls : (fls.getD []).length < secbootImgTotalLen) :
    makeFal h pFls pOut fls fal = .outOfBounds := by
  have himage : image ((fls.getD []).take flsFileMaxSize) ((fal.getD []).take falFileMaxSize) = none := by
    apply image_none
    · rw [List.length_take]
      omega
    · rw [List.length_take]
      omega
  rw [makeFal_eq pFls pOut he, himage]

/-- With one, the image of what was read of the two files is written. -/
theorem makeFal_long (he : ¬ Early h (fls.getD []) (fal.getD [])) (hfls : secbootImgTotalLen ≤ (fls.getD []).length) :
    (h.create = false ∧ (makeFal h pFls pOut fls fal).Refused) ∨
    (h.create = true ∧ ∃ stdout, makeFal h pFls pOut fls fal =
      .wrote pOut ((result ((fls.getD []).take flsFileMaxSize) ((fal.getD []).take falFileMaxSize)).take h.room) stdout) := by
  have hmax : flsFileMaxSize = 4194304 := rfl
  have htotal : secbootImgTotalLen = 57344 := rfl
  have hfal : ((fal.getD []).take falFileMaxSize).length ≤ falFileMaxSize := by
    rw [List.length_take]
    omega
  have hlong : secbootImgTotalLen ≤ ((fls.getD []).take flsFileMaxSize).length := by
    rw [List.length_take]
    omega
  rw [makeFal_eq pFls pOut he, image_eq hfal hlong]
  cases hcreate : h.create with
  | false =>
    simp only [fileWrite, hcreate]
    exact Or.inl ⟨trivial, _, rfl⟩
  | true =>
    simp only [fileWrite, hcreate]
    exact Or.inr ⟨trivial, _, rfl⟩

end Refusal

theorem not_refused_wrote (path : String) (out : List UInt8) (stdout : String) :
    ¬ (Outcome.wrote path out stdout).Refused := by
  rintro ⟨msg, hmsg⟩
  cases hmsg

/-- A program that does not refuse has written everything exactly when the sizes are right. -/
theorem refusesOrWhole_wrote {fls : List UInt8} (hlen : secbootImgTotalLen ≤ fls.length) (fal : List UInt8) (room : ℕ)
    (path stdout : String) :
    RefusesOrWhole (.wrote path ((result (fls.take flsFileMaxSize) (fal.take falFileMaxSize)).take room) stdout) fls fal ↔
      fls.length ≤ flsFileMaxSize ∧ fal.length ≤ falFileMaxSize ∧ fls.length ≤ room := by
  constructor
  · rintro ⟨hwhole, hreject⟩
    have hsize := mt hreject (not_refused_wrote _ _ _)
    push Not at hsize
    obtain hrefused | ⟨path', out, msg, heq, hout, -⟩ := hwhole
    · exact absurd hrefused (not_refused_wrote _ _ _)
    · obtain ⟨-, rfl, -⟩ := Outcome.wrote.inj heq
      rw [List.length_take] at hout
      exact ⟨hsize.1, hsize.2.1, by omega⟩
  · rintro ⟨hmax, hfmax, hroom⟩
    rw [List.take_of_length_le hmax, List.take_of_length_le hfmax]
    have hsize := result_length hfmax hlen
    rw [List.take_of_length_le (by rw [hsize]; exact hroom)]
    refine ⟨Or.inr ⟨path, result fls fal, stdout, rfl, hsize, ?_⟩, fun hbad => by omega⟩
    have hslice : fal <:+: (result fls fal).drop (secbootImgTotalLen - fal.length) := by
      have hprefix := List.take_prefix fal.length ((result fls fal).drop (secbootImgTotalLen - fal.length))
      rw [slice_result hfmax hlen] at hprefix
      exact hprefix.isInfix
    exact hslice.trans (List.drop_suffix _ _).isInfix

theorem not_refusesOrWhole_outOfBounds (fls fal : List UInt8) : ¬ RefusesOrWhole .outOfBounds fls fal := by
  rintro ⟨⟨msg, hmsg⟩ | ⟨path, out, msg, heq, -⟩, -⟩
  · cases hmsg
  · cases heq

/-- **What the program refuses.** -/
theorem refuses_or_whole_iff {h : Host} {argv : List String} {files : String → Option (List UInt8)}
    {pFls pFal pOut : String} (hpaths : paths argv = some (pFls, pFal, pOut)) :
    RefusesOrWhole (main h argv files) ((files pFls).getD []) ((files pFal).getD []) ↔
      Proper h ((files pFls).getD []) ((files pFal).getD []) := by
  have hmain : main h argv files = makeFal h pFls pOut (files pFls) (files pFal) := by rw [main, hpaths]
  rw [hmain]
  by_cases he : Early h ((files pFls).getD []) ((files pFal).getD [])
  · have hrefused := refused_of_early pFls pOut he
    exact ⟨fun _ => Or.inl he, fun _ => ⟨Or.inl hrefused, fun _ => hrefused⟩⟩
  by_cases hlen : secbootImgTotalLen ≤ ((files pFls).getD []).length
  · obtain ⟨hcreate, hrefused⟩ | ⟨hcreate, stdout, hwrote⟩ := makeFal_long pFls pOut he hlen
    · exact ⟨fun _ => Or.inr ⟨hlen, Or.inl hcreate⟩, fun _ => ⟨Or.inl hrefused, fun _ => hrefused⟩⟩
    · rw [hwrote, refusesOrWhole_wrote hlen]
      constructor
      · intro hsizes
        exact Or.inr ⟨hlen, Or.inr hsizes⟩
      · rintro (hearly | ⟨-, hno | hsizes⟩)
        · exact absurd hearly he
        · rw [hcreate] at hno
          cases hno
        · exact hsizes
  · rw [makeFal_short pFls pOut he (not_le.1 hlen)]
    constructor
    · intro hwhole
      exact absurd hwhole (not_refusesOrWhole_outOfBounds _ _)
    · rintro (hearly | ⟨hlong, -⟩)
      · exact absurd hearly he
      · exact absurd hlong hlen

theorem refuses_or_whole_plain :
    RefusesOrWhole (main richHost ["make_fal", "a.fls", "b.fal"] plainFiles) plainFls [1, 2, 3] := by
  have hlen := plainFls_length
  have hroom : plainFls.length ≤ richHost.room := hlen.le
  have hmax : plainFls.length ≤ flsFileMaxSize := by
    rw [hlen]
    decide
  have hproper : Proper richHost plainFls [1, 2, 3] := Or.inr ⟨hlen.ge, Or.inr ⟨hmax, by decide, hroom⟩⟩
  have hpaths : paths ["make_fal", "a.fls", "b.fal"] = some ("a.fls", "b.fal", "a.fls") := rfl
  exact (refuses_or_whole_iff hpaths).2 hproper

/-- A FAL file of 4097 bytes is not refused: its last byte is dropped. -/
theorem large_fal_not_refused : ¬ RefusesOrWhole
    (main richHost ["make_fal", "a.fls", "b.fal"] fun p => if p = "a.fls" then some plainFls else some (List.replicate 4097 1))
    plainFls (List.replicate 4097 1) := by
  rintro ⟨-, hreject⟩
  have hmagic : plainFls.take 4 = le 4 secbootMagicNo := List.take_left' (le_length _ _)
  have hlate : ¬ Early richHost ((some plainFls).getD []) ((some (List.replicate 4097 1)).getD []) :=
    not_early rfl rfl rfl plainFls_length.ge hmagic List.replicate_succ_ne_nil
  have hmain := makeFal_long "a.fls" "a.fls" hlate (by rw [Option.getD_some, plainFls_length]; decide)
  obtain ⟨hcreate, -⟩ | ⟨-, stdout, hwrote⟩ := hmain
  · cases hcreate
  · obtain ⟨msg, hmsg⟩ := hreject (Or.inr (Or.inl (by rw [List.length_replicate]; decide)))
    cases hwrote.symm.trans hmsg

end W601.Tools
