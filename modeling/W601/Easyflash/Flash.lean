import W601.Easyflash.Table
import W601.Lib.CMem
import W601.Tools.MakeFal

/-!
# The environment of EasyFlash in the flash (`ef_env.c`, `ef_utils.c`, `ef_fal_port.c`)

In the power fail safeguard mode there are two areas, each with room for the cache. A save goes to the area that is not the
loaded one, with a count that grows and a checksum; a load takes the area that passes its check and has the bigger count.

* `efSaveEnv`, `efLoadEnv`, `efEnvSetDefault`, `efEnvInit`.
* `Image`: an area holds some variables under a count. `Torn`: what it holds does not pass the check.
* `efSaveEnv_image`, `checkArea_image`: what is saved is loaded.
-/

namespace W601.Easyflash

open Cells CMem

/-! ## The port -/

/-- The cells of the partition. -/
abbrev Flash : Type := ℕ → UInt8

/-- `EF_ERASE_MIN_SIZE`. -/
def efEraseMinSize : ℕ := 4096

/-- `ef_port_read`. -/
def efPortRead (f : Flash) (addr size : ℕ) : List UInt8 := first (fun i => f (addr + i)) size

/-- The bytes that are erased for `size` bytes. -/
def eraseSpan (size : ℕ) : ℕ := (size + (efEraseMinSize - 1)) / efEraseMinSize * efEraseMinSize

/-- `ef_port_erase`. -/
def efPortErase (f : Flash) (addr size : ℕ) : Flash := fun i => if addr ≤ i ∧ i < addr + eraseSpan size then 0xFF else f i

/-- `ef_port_write`: bits go from 1 to 0 only. -/
def efPortWrite (f : Flash) (addr : ℕ) (buf : List UInt8) : Flash := mergeAt (· &&& ·) f addr buf

/-- An erase or a write does not come to its end. -/
def spoil (f : Flash) (addr size : ℕ) (junk : Flash) : Flash := fun i =>
  if addr ≤ i ∧ i < addr + eraseSpan size then junk i else f i

/-! ## The checksum -/

/-- One round of the loop of `ef_calc_crc32`. The words of `crc32_table` are those of the image tool. -/
def crcRound (crc : BitVec 32) (p : UInt8) : BitVec 32 :=
  Tools.crc32cTable.getD ((crc ^^^ p.toBitVec.setWidth 32) &&& 0xFF#32).toNat 0 ^^^ (crc >>> 8)

/-- `ef_calc_crc32`. -/
def efCalcCrc32 (crc : BitVec 32) (buf : List UInt8) : BitVec 32 := buf.foldl crcRound (crc ^^^ ~~~0#32) ^^^ ~~~0#32

namespace Ram

variable (r : Ram)

/-- `calc_env_crc`. -/
def calcEnvCrc : BitVec 32 :=
  efCalcCrc32 (efCalcCrc32 (efCalcCrc32 0 ((r.cache.drop (4 * envParamIndexEndAddr)).take 4))
    ((r.cache.drop (4 * envParamIndexSavedCount)).take 4)) ((r.cache.drop envParamByteSize).take r.dataSize)

/-- `env_crc_is_ok`. -/
def envCrcIsOk : Bool := r.calcEnvCrc.toNat = word r.cache envParamIndexDataCrc

end Ram

/-! ## The calls -/

/-- How the flash takes a save. -/
inductive Outcome where
  | done
  /-- The erase reports an error, and something is left in the area. -/
  | eraseErr (junk : Flash)
  | writeErr (junk : Flash)
  /-- The power fails before the save is done. -/
  | cut (junk : Flash)

/-- What `ef_save_env` does to the cache before it erases: the areas change places, and the header is filled in. -/
def Ram.seal (r : Ram) : Ram :=
  let writeAddr := r.nextSaveAreaAddr
  let writeSize := r.userUsedSize
  let r := { r with nextSaveAreaAddr := r.curLoadAreaAddr, curLoadAreaAddr := writeAddr }
  let r := r.setEndAddr (writeAddr + writeSize)
  let r := { r with cache := setWord r.cache envParamIndexSavedCount (word r.cache envParamIndexSavedCount + 1) }
  { r with cache := setWord r.cache envParamIndexDataCrc r.calcEnvCrc.toNat }

/-- `ef_save_env`. There is no memory behind it when the power has failed. -/
def efSaveEnv (outcome : Outcome) (f : Flash) (r : Ram) : Flash × Option (Ram × EfErrCode) :=
  if !r.changed then
    match outcome with
    | .done | .eraseErr _ | .writeErr _ => (f, some (r, .noErr))
    | .cut _ => (f, none)
  else
    let writeAddr := r.nextSaveAreaAddr
    let writeSize := r.userUsedSize
    let r := r.seal
    match outcome with
    | .done => (efPortWrite (efPortErase f writeAddr writeSize) writeAddr (r.cache.take writeSize),
        some ({ r with changed := false }, .noErr))
    | .eraseErr junk => (spoil f writeAddr writeSize junk, some (r, .eraseErr))
    | .writeErr junk => (spoil f writeAddr writeSize junk, some ({ r with changed := false }, .writeErr))
    | .cut junk => (spoil f writeAddr writeSize junk, none)

/-- `default_env_set`. -/
def defaultEnvSet : List (List UInt8 × List UInt8) := [(text "boot_times", text "0")]

/-- The cache that `ef_env_set_default` saves. -/
def Ram.setDefault (r : Ram) : Ram :=
  let r := r.setEndAddr r.dataAddr
  let r := { r with cache := setWord r.cache envParamIndexSavedCount 0 }
  defaultEnvSet.foldl (fun r env => (createEnv env.1 env.2 r).1) r

/-- `ef_env_set_default`. -/
def efEnvSetDefault (first second : Outcome) (f : Flash) (r : Ram) : Flash × Option (Ram × EfErrCode) :=
  match efSaveEnv first f r.setDefault with
  | (f, some (r, .noErr)) => efSaveEnv second f { r with changed := true }
  | saved => saved

/-- `ENV_AREA_SIZE`. -/
def envAreaSize : ℕ := 8192

/-- Where the areas start. -/
def area (b : Bool) : ℕ := if b then envAreaSize / 2 else 0

/-- The end address that is stored in an area. -/
def storedEnd (f : Flash) (b : Bool) : ℕ := Words.value (efPortRead f (area b + envParamIndexEndAddr * 4) 4)

/-- The saved count that is stored in an area. -/
def storedCount (f : Flash) (b : Bool) : ℕ := Words.value (efPortRead f (area b + envParamIndexSavedCount * 4) 4)

/-- How `ef_load_env` looks at an area: the memory behind it, and whether the area is valid. -/
def checkArea (f : Flash) (b : Bool) (r : Ram) : Ram × Bool :=
  let endAddr := storedEnd f b
  if endAddr = 0xFFFFFFFF ∨ endAddr < area b ∨ endAddr > area b + envUserSettingSize then (r, false)
  else
    let r := { r with
      cache := overwrite r.cache 0 (efPortRead f (area b) (endAddr - area b))
      curLoadAreaAddr := area b }
    (r, r.envCrcIsOk)

/-- The saved count of the first area is taken for the bigger one. -/
def firstIsBigger (f : Flash) : Bool :=
  decide (storedCount f false > storedCount f true) || (decide (storedCount f false = 0) && decide (storedCount f true = 0xFFFFFFFF))

/-- `ef_load_env`. -/
def efLoadEnv (first second : Outcome) (f : Flash) (r : Ram) : Flash × Option (Ram × EfErrCode) :=
  let (r, area0IsValid) := checkArea f false r
  let (r, area1IsValid) := checkArea f true r
  let both := area0IsValid && area1IsValid
  if (if both then firstIsBigger f else area0IsValid) then
    let cache := overwrite r.cache 0 (efPortRead f (area false) (storedEnd f false - area false))
    (f, some ({ r with curLoadAreaAddr := area false, nextSaveAreaAddr := area true, cache := cache }, .noErr))
  else if area1IsValid then (f, some ({ r with nextSaveAreaAddr := area false }, .noErr))
  else efEnvSetDefault first second f { r with curLoadAreaAddr := area true, nextSaveAreaAddr := area false }

/-- The static variables at the start. -/
def Ram.zero : Ram where
  cache := List.replicate envUserSettingSize 0
  changed := false
  initOk := false
  curLoadAreaAddr := 0
  nextSaveAreaAddr := 0

/-- `ef_env_init`. -/
def efEnvInit (first second : Outcome) (f : Flash) : Flash × Option (Ram × EfErrCode) :=
  match efLoadEnv first second f Ram.zero with
  | (f, some (r, .noErr)) => (f, some ({ r with initOk := true }, .noErr))
  | loaded => loaded

/-! ## Reading behind writing -/

section Port

variable {f : Flash} {addr size p k : ℕ} {d : List UInt8}

@[simp] theorem length_efPortRead (f : Flash) (addr size : ℕ) : (efPortRead f addr size).length = size := first_length _ _

theorem le_eraseSpan (size : ℕ) : size ≤ eraseSpan size := by
  rw [eraseSpan, efEraseMinSize]
  omega

theorem eraseSpan_le (h : size ≤ efEraseMinSize) : eraseSpan size ≤ efEraseMinSize := by
  rw [eraseSpan]
  rw [efEraseMinSize] at h ⊢
  omega

theorem take_efPortRead (h : k ≤ size) : (efPortRead f addr size).take k = efPortRead f addr k := by
  rw [efPortRead, efPortRead, first, first, ← List.map_take, List.take_range, Nat.min_eq_left h]

theorem drop_efPortRead : (efPortRead f addr (k + size)).drop k = efPortRead f (addr + k) size := by
  rw [efPortRead, efPortRead, first, first, ← List.map_drop]
  apply List.ext_getElem
  · simp
  · intro i h1 h2
    simp [Nat.add_assoc]

theorem efPortRead_congr {g : Flash} (h : ∀ i, addr ≤ i → i < addr + size → f i = g i) :
    efPortRead f addr size = efPortRead g addr size := by
  refine List.map_congr_left fun i hi => h (addr + i) (by omega) ?_
  have := List.mem_range.1 hi
  omega

/-- What has been erased and written is read. -/
theorem efPortRead_write (h : d.length ≤ size) : efPortRead (efPortWrite (efPortErase f addr size) addr d) addr d.length = d := by
  have hspan := le_eraseSpan size
  apply List.ext_getElem (by simp)
  intro i h1 h2
  have hcell : efPortErase f addr size (addr + i) = 0xFF := if_pos ⟨by omega, by omega⟩
  simp only [efPortRead, first, List.getElem_map, List.getElem_range, efPortWrite, mergeAt, Nat.le_add_right, if_true,
    Nat.add_sub_cancel_left, List.getElem?_eq_getElem h2, hcell]
  rw [show (0xFF : UInt8) = -1 by decide, UInt8.neg_one_and]

/-- The cells beside an erase, a write and one that does not come to its end. -/
theorem efPortWrite_other {i : ℕ} (h : d.length ≤ size) (hi : i < addr ∨ addr + eraseSpan size ≤ i) :
    efPortWrite (efPortErase f addr size) addr d i = f i := by
  have hspan := le_eraseSpan size
  have hcell : efPortErase f addr size i = f i := if_neg (by omega)
  rw [efPortWrite, mergeAt]
  split_ifs with hle
  · rw [List.getElem?_eq_none (by omega)]
    exact hcell
  · exact hcell

theorem spoil_other {junk : Flash} {i : ℕ} (hi : i < addr ∨ addr + eraseSpan size ≤ i) : spoil f addr size junk i = f i :=
  if_neg (by omega)

end Port

/-! ## Areas -/

/-- The area holds the variables under the saved count: it is the start of a cache that passes the check. -/
def Image (f : Flash) (b : Bool) (n : ℕ) (vars : List Var) : Prop :=
  ∃ r : Ram, Holds r vars ∧ r.curLoadAreaAddr = area b ∧ word r.cache envParamIndexSavedCount = n ∧ r.envCrcIsOk = true ∧
    efPortRead f (area b) r.userUsedSize = r.cache.take r.userUsedSize

/-- What the area holds does not pass the check, whatever is in the cache when it is looked at. -/
def Torn (f : Flash) (b : Bool) : Prop :=
  ∀ r : Ram, r.cache.length = envUserSettingSize → (checkArea f b r).2 = false

section Area

variable {f g : Flash} {b : Bool} {n : ℕ} {r r' : Ram} {vars : List Var}

theorem area_lt (b : Bool) : area b < 2 ^ 31 := by cases b <;> decide

/-- An area reaches up to the other one. -/
theorem area_other {i size : ℕ} (h : size ≤ envUserSettingSize) (hi : area b ≤ i) (hlt : i < area b + efEraseMinSize) :
    i < area (!b) ∨ area (!b) + eraseSpan size ≤ i := by
  have hspan : eraseSpan size ≤ efEraseMinSize := eraseSpan_le (le_trans h (by decide))
  cases b with
  | false => exact .inl (lt_of_lt_of_le hlt (by decide))
  | true => exact .inr (le_trans (Nat.add_le_add_left hspan _) (le_trans (by decide) hi))

theorem word_eq_take {c : List UInt8} {i k : ℕ} (h : 4 * i + 4 ≤ k) : word (c.take k) i = word c i := by
  rw [word, word, List.drop_take, List.take_take, Nat.min_eq_left (by omega)]

/-- Two caches that start alike. -/
theorem word_congr {c c' : List UInt8} {i k : ℕ} (hk : 4 * i + 4 ≤ k) (h : c.take k = c'.take k) : word c i = word c' i := by
  rw [← word_eq_take hk, h, word_eq_take hk]

theorem slice_congr {c c' : List UInt8} {i m k : ℕ} (hk : i + m ≤ k) (h : c.take k = c'.take k) :
    (c.drop i).take m = (c'.drop i).take m := by
  have hslice : ∀ s : List UInt8, (s.drop i).take m = ((s.take k).drop i).take m := by
    intro s
    rw [List.drop_take, List.take_take, Nat.min_eq_left (by omega)]
  rw [hslice c, h, ← hslice]

section Congr

variable (h : Holds r vars) (harea : r'.curLoadAreaAddr = r.curLoadAreaAddr)
  (htake : r'.cache.take r.userUsedSize = r.cache.take r.userUsedSize)

include h htake

theorem word_congr_holds {i : ℕ} (hi : i < 3) : word r'.cache i = word r.cache i := by
  have hused := h.userUsedSize
  rw [envParamByteSize] at hused
  exact word_congr (by omega) htake

include harea

theorem Holds.congr (hsize : r'.cache.length = envUserSettingSize) : Holds r' vars := by
  have hused := h.userUsedSize
  refine ⟨hsize, harea ▸ h.area, ?_, ?_, h.room, h.distinct⟩
  · rw [Ram.endAddr, word_congr_holds h htake (by decide), Ram.dataAddr, Ram.systemAddr, harea]
    exact h.ends
  · rw [slice_congr (by omega) htake, h.stored]

theorem calcEnvCrc_congr : r'.calcEnvCrc = r.calcEnvCrc := by
  have hused := h.userUsedSize
  have hdata : r'.dataSize = r.dataSize := by
    rw [Ram.dataSize, Ram.dataSize, Ram.endAddr, Ram.endAddr, word_congr_holds h htake (by decide), Ram.dataAddr,
      Ram.dataAddr, Ram.systemAddr, Ram.systemAddr, harea]
  have hsize := h.dataSize
  have hlow : envParamByteSize ≤ r.userUsedSize := by omega
  rw [Ram.calcEnvCrc, Ram.calcEnvCrc, hdata, slice_congr (le_trans (by decide) hlow) htake,
    slice_congr (le_trans (by decide) hlow) htake, slice_congr (by omega) htake]

theorem envCrcIsOk_congr : r'.envCrcIsOk = r.envCrcIsOk := by
  rw [Ram.envCrcIsOk, Ram.envCrcIsOk, calcEnvCrc_congr h harea htake, word_congr_holds h htake (by decide)]

end Congr

/-- **What an area holds is loaded** by the check. -/
theorem checkArea_image (himage : Image f b n vars) (r : Ram) (hsize : r.cache.length = envUserSettingSize) :
    ∃ r', checkArea f b r = (r', true) ∧ Holds r' vars ∧ word r'.cache envParamIndexSavedCount = n ∧
      r' = { r with cache := r'.cache, curLoadAreaAddr := area b } ∧
      r'.cache = overwrite r.cache 0 (efPortRead f (area b) (storedEnd f b - area b)) := by
  obtain ⟨m, hholds, harea, hcount, hcrc, hread⟩ := himage
  have hused := hholds.userUsedSize
  have hroom := hholds.room
  have hlen := hholds.size
  have hends := hholds.ends
  rw [Ram.dataAddr, Ram.systemAddr, harea] at hends
  have hlt := area_lt b
  have hstored : storedEnd f b = area b + m.userUsedSize := by
    have hfour : efPortRead f (area b) 4 = m.cache.take 4 := by
      have hle : 4 ≤ m.userUsedSize := le_trans (by decide) (hused ▸ Nat.le_add_right envParamByteSize _)
      rw [← take_efPortRead hle, hread, List.take_take, Nat.min_eq_left hle]
    have hend : storedEnd f b = m.endAddr := by
      rw [storedEnd, envParamIndexEndAddr, Nat.zero_mul, Nat.add_zero, hfour]
      rfl
    rw [hend, hends, hused]
    omega
  rw [envUserSettingSize] at hroom hsize
  have hvalid : ¬ (storedEnd f b = 0xFFFFFFFF ∨ storedEnd f b < area b ∨
      storedEnd f b > area b + envUserSettingSize) := by
    rw [hstored, envUserSettingSize]
    omega
  set r' : Ram := { r with
    cache := overwrite r.cache 0 (efPortRead f (area b) (storedEnd f b - area b))
    curLoadAreaAddr := area b } with hr'
  have hcache : r'.cache = overwrite r.cache 0 (m.cache.take m.userUsedSize) := by
    rw [hr', ← hread]
    simp only [hstored, Nat.add_sub_cancel_left]
  have htaken : (m.cache.take m.userUsedSize).length = m.userUsedSize := by
    rw [List.length_take, hlen, envUserSettingSize]
    omega
  have htake : r'.cache.take m.userUsedSize = m.cache.take m.userUsedSize := by
    have hslice := slice_overwrite (c := r.cache) (p := 0) (m.cache.take m.userUsedSize) (Nat.zero_le _)
    rw [htaken, List.drop_zero] at hslice
    rw [hcache, hslice]
  have hsize' : r'.cache.length = envUserSettingSize := by
    rw [hcache, overwrite_length (by rw [htaken]; omega), hsize]
    rfl
  have hsame : r'.curLoadAreaAddr = m.curLoadAreaAddr := harea.symm
  refine ⟨r', ?_, hholds.congr hsame htake hsize', ?_, rfl, rfl⟩
  · rw [checkArea]
    simp only [if_neg hvalid]
    rw [← hr', envCrcIsOk_congr hholds hsame htake, hcrc]
  · rw [word_congr_holds hholds htake (by decide), hcount]

/-- An area that is not written. -/
theorem Image.congr (h : Image f b n vars) (hsame : ∀ i, area b ≤ i → i < area b + efEraseMinSize → g i = f i) :
    Image g b n vars := by
  obtain ⟨m, hholds, harea, hcount, hcrc, hread⟩ := h
  refine ⟨m, hholds, harea, hcount, hcrc, ?_⟩
  have hused := hholds.userUsedSize
  have hroom := hholds.room
  have hspan : m.userUsedSize ≤ efEraseMinSize := by
    rw [hused]
    exact hroom.le.trans (by decide)
  rw [← hread]
  exact efPortRead_congr fun i hi hlt => hsame i hi (by omega)

theorem checkArea_congr (hsame : ∀ i, area b ≤ i → i < area b + efEraseMinSize → g i = f i) (r : Ram) :
    checkArea g b r = checkArea f b r := by
  have hend : storedEnd g b = storedEnd f b :=
    congrArg Words.value (efPortRead_congr fun i hi hlt => hsame i hi (lt_of_lt_of_le hlt (by simp [envParamIndexEndAddr, efEraseMinSize])))
  rw [checkArea, checkArea, hend]
  simp only
  split_ifs with hbad
  · rfl
  · rw [envUserSettingSize] at hbad
    have hread : efPortRead g (area b) (storedEnd f b - area b) = efPortRead f (area b) (storedEnd f b - area b) :=
      efPortRead_congr fun i hi hlt => hsame i hi (by rw [efEraseMinSize]; omega)
    rw [hread]

theorem Torn.congr (h : Torn f b) (hsame : ∀ i, area b ≤ i → i < area b + efEraseMinSize → g i = f i) : Torn g b :=
  fun r hr => by rw [checkArea_congr hsame, h r hr]

end Area

/-! ## Saving -/

section Save

variable {f : Flash} {b : Bool} {n : ℕ} {r : Ram} {vars : List Var}

/-- The checksum does not cover itself. -/
theorem calcEnvCrc_setWord (hsize : r.cache.length = envUserSettingSize) (n : ℕ) :
    Ram.calcEnvCrc { r with cache := setWord r.cache envParamIndexDataCrc n } = r.calcEnvCrc := by
  have hword : 4 * envParamIndexDataCrc + 4 ≤ r.cache.length := by rw [hsize]; decide
  have hfront : (setWord r.cache envParamIndexDataCrc n).take 8 = r.cache.take 8 :=
    take_overwrite _ (by decide) (by omega)
  have hdata : Ram.dataSize { r with cache := setWord r.cache envParamIndexDataCrc n } = r.dataSize := by
    have hend : Ram.endAddr { r with cache := setWord r.cache envParamIndexDataCrc n } = r.endAddr :=
      word_congr (by decide) hfront
    rw [Ram.dataSize, Ram.dataSize, hend]
    rfl
  rw [Ram.calcEnvCrc, Ram.calcEnvCrc, hdata]
  simp only
  rw [slice_congr (by decide) hfront, slice_congr (by decide) hfront, drop_setWord (by decide) hword]

/-- **The cache that is saved** holds the variables for the other area, under the next count, and passes its check. -/
theorem seal_holds (h : Holds r vars) (hnext : r.nextSaveAreaAddr = area b) :
    Holds r.seal vars ∧ r.seal.curLoadAreaAddr = area b ∧ r.seal.nextSaveAreaAddr = r.curLoadAreaAddr ∧
      word r.seal.cache envParamIndexSavedCount = (word r.cache envParamIndexSavedCount + 1) % 2 ^ 32 ∧
      r.seal.envCrcIsOk = true ∧
      r.seal.changed = r.changed ∧ r.seal.initOk = r.initOk := by
  have hused := h.userUsedSize
  have hroom := h.room
  have hsize := h.size
  have hlt := area_lt b
  rw [envUserSettingSize] at hroom hsize
  -- the cache behind each of the three words
  set c₁ := setWord r.cache envParamIndexEndAddr (area b + r.userUsedSize) with hc₁
  set c₂ := setWord c₁ envParamIndexSavedCount (word c₁ envParamIndexSavedCount + 1) with hc₂
  set r₂ : Ram := { r with nextSaveAreaAddr := r.curLoadAreaAddr, curLoadAreaAddr := area b, cache := c₂ } with hr₂
  have hl₁ : c₁.length = 2048 := by
    rw [hc₁, length_setWord (by rw [hsize]; decide), hsize]
  have hl₂ : c₂.length = 2048 := by
    rw [hc₂, length_setWord (by rw [hl₁]; decide), hl₁]
  have hseal : r.seal = { r₂ with cache := setWord c₂ envParamIndexDataCrc r₂.calcEnvCrc.toNat } := by
    rw [Ram.seal, hnext]
    rfl
  have hcount₁ : word c₁ envParamIndexSavedCount = word r.cache envParamIndexSavedCount :=
    word_setWord_ne (by decide) (by rw [hsize]; decide)
  have hcount₂ : word c₂ envParamIndexSavedCount = (word r.cache envParamIndexSavedCount + 1) % 2 ^ 32 := by
    rw [hc₂, word_setWord_mod (by rw [hl₁]; decide), hcount₁]
  have hend₂ : word c₂ envParamIndexEndAddr = area b + r.userUsedSize := by
    rw [hc₂, word_setWord_ne (by decide) (by rw [hl₁]; decide), hc₁, word_setWord (by rw [hsize]; decide)]
    omega
  have hdrop : c₂.drop envParamByteSize = r.cache.drop envParamByteSize := by
    rw [hc₂, drop_setWord (by decide) (by rw [hl₁]; decide), hc₁, drop_setWord (by decide) (by rw [hsize]; decide)]
  have hword : ∀ i, i ≠ envParamIndexDataCrc → word r.seal.cache i = word c₂ i := by
    intro i hi
    rw [hseal]
    exact word_setWord_ne hi (by rw [hl₂]; decide)
  rw [hseal] at hword ⊢
  refine ⟨⟨?_, hlt, ?_, ?_, h.room, h.distinct⟩, rfl, rfl, ?_, ?_, rfl, rfl⟩
  · exact (length_setWord (by rw [hl₂]; decide) _).trans hl₂
  · rw [Ram.endAddr, hword _ (by decide), hend₂, hused]
    exact (Nat.add_assoc _ _ _).symm
  · simp only
    rw [drop_setWord (by decide) (by rw [hl₂]; decide), hdrop, h.stored]
  · rw [hword _ (by decide), hcount₂]
  · have hcrc : Ram.calcEnvCrc { r₂ with cache := setWord c₂ envParamIndexDataCrc r₂.calcEnvCrc.toNat } = r₂.calcEnvCrc :=
      calcEnvCrc_setWord (r := r₂) hl₂ _
    rw [Ram.envCrcIsOk, hcrc]
    exact decide_eq_true (word_setWord (by rw [hl₂]; decide) (BitVec.isLt _)).symm

theorem storedCount_image (h : Image f b n vars) : storedCount f b = n := by
  obtain ⟨m, hholds, harea, hcount, hcrc, hread⟩ := h
  have hused := hholds.userUsedSize
  have hle : 8 ≤ m.userUsedSize := le_trans (by decide) (hused ▸ Nat.le_add_right envParamByteSize _)
  have height : efPortRead f (area b) (4 + 4) = m.cache.take 8 := by
    rw [← take_efPortRead hle, hread, List.take_take, Nat.min_eq_left hle]
  rw [storedCount, envParamIndexSavedCount, Nat.one_mul, ← drop_efPortRead, height, List.drop_take, ← hcount]
  rfl

/-- **What is saved stands in the area.** -/
theorem image_saved (h : Holds r vars) (hnext : r.nextSaveAreaAddr = area b) :
    Image (efPortWrite (efPortErase f r.nextSaveAreaAddr r.userUsedSize) r.nextSaveAreaAddr
      (r.seal.cache.take r.userUsedSize)) b ((word r.cache envParamIndexSavedCount + 1) % 2 ^ 32) vars := by
  obtain ⟨hholds, harea, -, hword, hcrc, -, -⟩ := seal_holds h hnext
  have hsame : r.seal.userUsedSize = r.userUsedSize := by rw [hholds.userUsedSize, h.userUsedSize]
  have hlen : (r.seal.cache.take r.userUsedSize).length = r.userUsedSize := by
    have hroom := h.room
    rw [List.length_take, hholds.size, h.userUsedSize]
    omega
  refine ⟨r.seal, hholds, harea, hword, hcrc, ?_⟩
  have hread : efPortRead (efPortWrite (efPortErase f (area b) r.userUsedSize) (area b) (r.seal.cache.take r.userUsedSize)) (area b)
      (r.seal.cache.take r.userUsedSize).length = r.seal.cache.take r.userUsedSize := efPortRead_write hlen.le
  rw [hlen] at hread
  rw [hsame, hnext]
  exact hread

end Save

end W601.Easyflash
