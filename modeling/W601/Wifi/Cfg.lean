import W601.Lib.Recent
import W601.Lib.Words
import W601.Wifi.Config

/-!
# The known networks (`wlan_cfg.c`)

`cfg_cache` holds at most three networks, the one that was joined last in front. It is written to the environment as a
package with a header, and read from there at the start.

* `rtWlanCfgSave_put`: a save is a use of a list of what was used last. `saves_recent`: what some saves leave.
* `refresh_saved`: what was written is read.
-/

namespace W601.Wifi

open CMem

/-- `RT_WLAN_CFG_INFO_MAX`. -/
def rtWlanCfgInfoMax : ℕ := 3

/-- `RT_WLAN_CFG_MAGIC`. -/
def rtWlanCfgMagic : ℕ := 0x426f6d62

/-- `sizeof(struct rt_wlan_cfg_info)`. -/
def sizeofCfgInfo : ℕ := 96

/-- `sizeof(struct cfg_save_info_head)`. -/
def sizeofHead : ℕ := 16

/-- `struct rt_wlan_cfg_info`, byte by byte. -/
structure CfgInfo where
  bytes : List UInt8
  size : bytes.length = sizeofCfgInfo
  deriving DecidableEq

namespace CfgInfo

variable (c : CfgInfo)

/-- `info.ssid.len`. -/
def ssidLen : ℕ := (c.bytes.getD 16 0).toNat

/-- The start of `info.ssid.val`. -/
def ssidVal (n : ℕ) : List UInt8 := (c.bytes.drop 17).take n

/-- `info.bssid`. -/
def bssid : List UInt8 := (c.bytes.drop 50).take 6

/-- `key.len`. -/
def keyLen : ℕ := (c.bytes.getD 60 0).toNat

/-- The start of `key.val`. -/
def keyVal (n : ℕ) : List UInt8 := (c.bytes.drop 61).take n

/-- The network: what the comparisons look at. -/
def network : ℕ × List UInt8 × List UInt8 := (c.ssidLen, c.ssidVal c.ssidLen, c.bssid)

/-- The network and its key. -/
def credentials : (ℕ × List UInt8 × List UInt8) × ℕ × List UInt8 := (c.network, c.keyLen, c.keyVal c.keyLen)

end CfgInfo

/-- The comparison of an entry of the cache with another one. -/
def sameNetwork (cached info : CfgInfo) : Bool :=
  decide (cached.ssidLen = info.ssidLen) && decide (cached.ssidVal cached.ssidLen = info.ssidVal cached.ssidLen) &&
    decide (cached.bssid = info.bssid)

/-- The loop that moves the entries in front of the `i`-th one. -/
def moveInfo : ℕ → List CfgInfo → List CfgInfo
  | 0, cache => cache
  | i + 1, cache =>
    match cache[i]? with
    | some info => moveInfo i (cache.set (i + 1) info)
    | none => cache

/-- An entry comes to the head, and what is in front of the `i`-th one moves on. -/
def addHead (i : ℕ) (info : CfgInfo) (cache : List CfgInfo) : List CfgInfo :=
  let i := if i ≥ rtWlanCfgInfoMax then rtWlanCfgInfoMax - 1 else i
  (moveInfo i cache).set 0 info

/-- `rt_wlan_cfg_save`, up to `rt_wlan_cfg_cache_save`: the cache, and the answer when it is not called. `mem` says that
there is memory for one more entry, and `fresh` is what stands there. -/
def rtWlanCfgSave (mem : Bool) (fresh : CfgInfo) (info : CfgInfo) (cache : List CfgInfo) : List CfgInfo × Option ℤ :=
  if info.ssidLen = 0 then (cache, some (-10))
  else
    let i := cache.findIdx (sameNetwork · info)
    match cache[i]? with
    | some cached =>
      if i = 0 ∧ cached.keyLen = info.keyLen ∧ cached.keyVal info.keyLen = info.keyVal info.keyLen then (cache, some 0)
      else (addHead i info cache, none)
    | none =>
      if cache.length < rtWlanCfgInfoMax then
        if !mem then (cache, some (-5)) else (addHead i info (cache ++ [fresh]), none)
      else (addHead i info cache, none)

/-- One bit of `rt_wlan_cal_crc`. -/
def crcBit (crc : BitVec 16) : BitVec 16 := if crc &&& 0x8000#16 ≠ 0#16 then (crc <<< 1) ^^^ 0x1021#16 else crc <<< 1

def crcByte (crc : BitVec 16) (char : UInt8) : BitVec 16 := crcBit^[8] (crc ^^^ (char.toBitVec.setWidth 16) <<< 8)

/-- `rt_wlan_cal_crc`. -/
def rtWlanCalCrc (buff : List UInt8) : BitVec 16 := buff.foldl crcByte 0#16

/-- The entries, one behind the other. -/
def cfgData (cache : List CfgInfo) : List UInt8 := cache.flatMap CfgInfo.bytes

/-- The package of `rt_wlan_cfg_cache_save`. -/
def infoPkg (cache : List CfgInfo) : List UInt8 :=
  Words.bytes 4 rtWlanCfgMagic ++ Words.bytes 4 (sizeofHead + sizeofCfgInfo * cache.length) ++
    Words.bytes 4 cache.length ++ Words.bytes 4 (rtWlanCalCrc (cfgData cache)).toNat ++ cfgData cache

/-- `rt_wlan_cfg_cache_save`: the answer and the environment. -/
def rtWlanCfgCacheSave (mem : Bool) (o : WriteOut) (cache : List CfgInfo) (env : Env) : ℤ × Env :=
  if !mem then (-5, env)
  else
    let (written, env) := writeCfg o (infoPkg cache) env
    (if written ≠ (infoPkg cache).length then -1 else 0, env)

/-- The entries of a package. -/
def readInfos : ℕ → List UInt8 → List CfgInfo
  | 0, _ => []
  | n + 1, data =>
    if h : (data.take sizeofCfgInfo).length = sizeofCfgInfo then ⟨data.take sizeofCfgInfo, h⟩ :: readInfos n (data.drop sizeofCfgInfo)
    else []

/-- The loop of `rt_wlan_cfg_cache_refresh`: the cache and the answer. `grow n` says that there is memory for `n + 1`
entries. -/
def mergeInfos (grow : ℕ → Bool) : List CfgInfo → List CfgInfo → List CfgInfo × ℤ
  | cache, [] => (cache, 0)
  | cache, info :: infos =>
    if cache.length ≥ rtWlanCfgInfoMax then (cache, 0)
    else if cache.any (sameNetwork · info) then mergeInfos grow cache infos
    else if !grow cache.length then (cache, -1)
    else mergeInfos grow (cache ++ [info]) infos

/-- The outcomes of the calls of `rt_wlan_cfg_cache_refresh`, and what is in the memory that it reads. -/
structure RefreshOut where
  mem : Bool
  grow : ℕ → Bool
  /-- What stands around the string in the memory of EasyFlash. -/
  around : ℤ → UInt8
  heap : ℤ → UInt8

/-- `rt_wlan_cfg_cache_refresh`: the cache and the answer. Of a package that is shorter than its header it takes the
checksum over the memory behind it. -/
def rtWlanCfgCacheRefresh (o : RefreshOut) (env : Env) (cache : List CfgInfo) : Option (List CfgInfo × ℤ) :=
  if cache.length ≥ rtWlanCfgInfoMax then some (cache, -1)
  else
    let len := getLen env
    if len ≤ 0 then some (cache, -1)
    else if !o.mem then some (cache, -1)
    else
      let read := readCfg env o.around o.heap len
      if read.1 ≠ len then some (cache, -1)
      else if len < sizeofHead then none
      else
        let head := (List.range len.toNat).map fun i : ℕ => read.2 i
        let data := head.drop sizeofHead
        let num := Words.value ((head.drop 8).take 4)
        if Words.value (head.take 4) ≠ rtWlanCfgMagic ∨ Words.value ((head.drop 4).take 4) ≠ len ∨
            num ≠ (len.toNat - sizeofHead) / sizeofCfgInfo ∨
            Words.value ((head.drop 12).take 4) ≠ (rtWlanCalCrc data).toNat then some (cache, -1)
        else some (mergeInfos o.grow cache (readInfos num data))

/-! ## Saving -/

section Save

variable {fresh info : CfgInfo} {cache : List CfgInfo}

theorem sameNetwork_iff {a b : CfgInfo} : sameNetwork a b = true ↔ a.network = b.network := by
  rw [sameNetwork, Bool.and_eq_true, Bool.and_eq_true, decide_eq_true_eq, decide_eq_true_eq, decide_eq_true_eq,
    CfgInfo.network, CfgInfo.network, Prod.mk.injEq, Prod.mk.injEq, and_assoc]
  constructor
  · rintro ⟨hlen, hval, hbssid⟩
    exact ⟨hlen, hlen ▸ hval, hbssid⟩
  · rintro ⟨hlen, hval, hbssid⟩
    exact ⟨hlen, hlen ▸ hval, hbssid⟩

/-- The loop makes room at the head. -/
theorem moveInfo_eq : ∀ {i : ℕ} {cache : List CfgInfo}, i < cache.length →
    ∃ x, moveInfo i cache = x :: (cache.take i ++ cache.drop (i + 1)) := by
  intro i
  induction i with
  | zero =>
    intro cache hi
    obtain ⟨x, rest, rfl⟩ := List.exists_cons_of_length_pos hi
    exact ⟨x, rfl⟩
  | succ i ih =>
    intro cache hi
    have hget : cache[i]? = some cache[i] := List.getElem?_eq_getElem (by omega)
    rw [moveInfo, hget]
    simp only
    have hset : i < (cache.set (i + 1) cache[i]).length := by
      rw [List.length_set]
      omega
    obtain ⟨x, hx⟩ := ih hset
    refine ⟨x, ?_⟩
    rw [hx, List.take_set_of_le (by omega), List.drop_set]
    simp only [lt_irrefl, if_false, Nat.sub_self]
    have hdrop : cache.drop (i + 1) = cache[i + 1] :: cache.drop (i + 2) := List.drop_eq_getElem_cons hi
    rw [hdrop, List.set_cons_zero, List.take_succ_eq_append_getElem (by omega), List.append_assoc, List.singleton_append]

/-- **What comes to the head.** -/
theorem addHead_eq {i : ℕ} (hi : i < cache.length) (hmax : i < rtWlanCfgInfoMax) (info : CfgInfo) :
    addHead i info cache = info :: (cache.take i ++ cache.drop (i + 1)) := by
  obtain ⟨x, hx⟩ := moveInfo_eq hi
  rw [addHead, if_neg (by omega), hx, List.set_cons_zero]

/-- **A save is a use** of a list of what was used last: unless the head is the same network with the same key, or there is
no memory, the network comes to the head, and what there is of it goes. -/
theorem rtWlanCfgSave_put (mem : Bool) (fresh : CfgInfo) (hlen : cache.length ≤ rtWlanCfgInfoMax) (hdistinct : (cache.map CfgInfo.network).Nodup)
    (hnamed : info.ssidLen ≠ 0) :
    rtWlanCfgSave mem fresh info cache = (Recent.put CfgInfo.network rtWlanCfgInfoMax info cache, none) ∨
      (∃ head rest, cache = head :: rest ∧ head.credentials = info.credentials) ∧
        rtWlanCfgSave mem fresh info cache = (cache, some 0) ∨
      mem = false ∧ rtWlanCfgSave mem fresh info cache = (cache, some (-5)) := by
  rw [rtWlanCfgSave, if_neg hnamed]
  simp only
  cases hfind : cache[cache.findIdx (sameNetwork · info)]? with
  | some cached =>
    obtain ⟨hi, hcached⟩ := List.getElem?_eq_some_iff.1 hfind
    have hsame : sameNetwork cached info = true := by
      rw [← hcached]
      exact List.findIdx_getElem (w := hi)
    have hnetwork := sameNetwork_iff.1 hsame
    have hsplit : cache = cache.take (cache.findIdx (sameNetwork · info)) ++ cached ::
        cache.drop (cache.findIdx (sameNetwork · info) + 1) := by
      rw [← hcached, List.cons_getElem_drop_succ, List.take_append_drop]
    simp only
    split_ifs with hhead
    · refine .inr (.inl ⟨?_, rfl⟩)
      obtain ⟨hzero, hkeyLen, hkeyVal⟩ := hhead
      refine ⟨cached, cache.drop (cache.findIdx (sameNetwork · info) + 1), ?_, ?_⟩
      · conv_lhs => rw [hsplit, hzero]
        rw [hzero]
        rfl
      · rw [CfgInfo.credentials, CfgInfo.credentials, hnetwork, hkeyLen, hkeyVal]
    · refine .inl ?_
      rw [addHead_eq hi (by omega)]
      have hpush : Recent.push CfgInfo.network info cache = info :: (cache.take (cache.findIdx (sameNetwork · info)) ++
          cache.drop (cache.findIdx (sameNetwork · info) + 1)) := by
        conv_lhs => rw [hsplit]
        exact Recent.push_of_mem hnetwork (hsplit ▸ hdistinct)
      have hsum := congrArg List.length hsplit
      rw [List.length_append, List.length_cons] at hsum
      have hle : (info :: (cache.take (cache.findIdx (sameNetwork · info)) ++
          cache.drop (cache.findIdx (sameNetwork · info) + 1))).length ≤ rtWlanCfgInfoMax := by
        rw [List.length_cons, List.length_append]
        omega
      rw [Recent.put, hpush, List.take_of_length_le hle]
  | none =>
    have hend : cache.findIdx (sameNetwork · info) = cache.length :=
      le_antisymm List.findIdx_le_length (List.getElem?_eq_none_iff.1 hfind)
    have hnew : info.network ∉ cache.map CfgInfo.network := by
      intro hmem
      obtain ⟨y, hy, hkey⟩ := List.mem_map.1 hmem
      have hno := List.findIdx_eq_length.1 hend y hy
      rw [sameNetwork_iff.2 hkey] at hno
      cases hno
    rw [hend, Recent.put, Recent.push_of_notMem hnew]
    simp only
    split_ifs with hroom hmem
    · exact .inr (.inr ⟨by simpa using hmem, rfl⟩)
    · rw [addHead_eq (by simp) hroom, List.take_left, List.drop_eq_nil_of_le (by simp), List.append_nil,
        List.take_of_length_le (by rw [List.length_cons]; omega)]
      exact .inl rfl
    · have hfull : cache.length = rtWlanCfgInfoMax := by omega
      have hadd : addHead cache.length info cache = addHead (rtWlanCfgInfoMax - 1) info cache := by
        rw [addHead, addHead, if_pos (by omega), if_neg (by decide)]
      rw [hadd, addHead_eq (by rw [hfull]; decide) (by decide), List.drop_eq_nil_of_le (by rw [hfull]; decide),
        List.append_nil]
      exact .inl rfl

/-- What every save keeps. -/
structure KnownList (cache : List CfgInfo) : Prop where
  bounded : cache.length ≤ rtWlanCfgInfoMax
  distinct : (cache.map CfgInfo.network).Nodup

theorem knownList_nil : KnownList [] := ⟨Nat.zero_le _, List.nodup_nil⟩

theorem KnownList.save (h : KnownList cache) (mem : Bool) (fresh info : CfgInfo) : KnownList (rtWlanCfgSave mem fresh info cache).1 := by
  by_cases hnamed : info.ssidLen = 0
  · rw [rtWlanCfgSave, if_pos hnamed]
    exact h
  · rcases rtWlanCfgSave_put mem fresh h.bounded h.distinct hnamed with hput | ⟨-, hput⟩ | ⟨-, hput⟩
    · rw [hput]
      exact ⟨Recent.length_put_le _ _ _, Recent.nodup_put _ h.distinct⟩
    · rw [hput]
      exact h
    · rw [hput]
      exact h

/-- A save in terms of networks and keys. -/
theorem credentials_save (h : KnownList cache) (hnamed : info.ssidLen ≠ 0) :
    (rtWlanCfgSave true fresh info cache).1.map CfgInfo.credentials =
      Recent.put Prod.fst rtWlanCfgInfoMax info.credentials (cache.map CfgInfo.credentials) := by
  rcases rtWlanCfgSave_put true fresh h.bounded h.distinct hnamed with
    hcache | ⟨⟨head, rest, rfl, hsame⟩, hcache⟩ | ⟨hno, -⟩
  · rw [hcache]
    have hnetwork : ∀ c : CfgInfo, Prod.fst c.credentials = c.network := fun _ => rfl
    exact Recent.map_put hnetwork rtWlanCfgInfoMax info cache
  · rw [hcache, ← hsame, List.map_cons]
    have hdistinct := h.distinct
    rw [List.map_cons, List.nodup_cons] at hdistinct
    have hnotMem : head.credentials.1 ∉ (rest.map CfgInfo.credentials).map Prod.fst := by
      rw [List.map_map]
      exact hdistinct.1
    have hbounded := h.bounded
    rw [List.length_cons] at hbounded
    rw [Recent.put, Recent.push, List.filter_cons_of_neg (by simp), Recent.filter_of_notMem hnotMem, List.take_of_length_le]
    rw [List.length_cons, List.length_map]
    exact hbounded
  · cases hno

end Save

/-! ## Reading back -/

section Refresh

variable {cache : List CfgInfo}

theorem length_cfgData : ∀ cache : List CfgInfo, (cfgData cache).length = sizeofCfgInfo * cache.length
  | [] => rfl
  | info :: cache => by
    have hrest := length_cfgData cache
    have hsize := info.size
    rw [cfgData, List.flatMap_cons, List.length_append, hsize, List.length_cons, Nat.mul_succ, Nat.add_comm]
    exact congrArg (· + sizeofCfgInfo) hrest

theorem length_infoPkg (cache : List CfgInfo) : (infoPkg cache).length = sizeofHead + sizeofCfgInfo * cache.length := by
  rw [infoPkg, List.length_append, length_cfgData]
  simp only [List.length_append, Words.length_bytes, sizeofHead]

theorem readInfos_cfgData : ∀ cache : List CfgInfo, readInfos cache.length (cfgData cache) = cache
  | [] => rfl
  | info :: cache => by
    have hsize := info.size
    have htake : (cfgData (info :: cache)).take sizeofCfgInfo = info.bytes := by
      rw [cfgData, List.flatMap_cons, ← hsize, List.take_left]
    have hdrop : (cfgData (info :: cache)).drop sizeofCfgInfo = cfgData cache := by
      rw [cfgData, List.flatMap_cons, ← hsize, List.drop_left]
      rfl
    rw [List.length_cons, readInfos, dif_pos (by rw [htake, hsize])]
    simp only [htake, hdrop, readInfos_cfgData cache]

/-- Different networks are all taken over. -/
theorem mergeInfos_distinct {grow : ℕ → Bool} (hgrow : ∀ n, grow n = true) : ∀ {back front : List CfgInfo},
    KnownList (front ++ back) → mergeInfos grow front back = (front ++ back, 0) := by
  intro back
  induction back with
  | nil =>
    intro front _
    rw [mergeInfos, List.append_nil]
  | cons info back ih =>
    intro front h
    have hbounded := h.bounded
    rw [List.length_append, List.length_cons] at hbounded
    have hnew : ¬ front.any (sameNetwork · info) = true := by
      intro hany
      obtain ⟨y, hy, hsame⟩ := List.any_eq_true.1 hany
      have hdistinct := h.distinct
      rw [List.map_append, List.map_cons] at hdistinct
      have hmem := (List.nodup_middle.1 hdistinct).notMem
      rw [← sameNetwork_iff.1 hsame] at hmem
      exact hmem (List.mem_append_left _ (List.mem_map_of_mem hy))
    have hnext : front ++ info :: back = front ++ [info] ++ back := by rw [List.append_assoc, List.singleton_append]
    rw [mergeInfos, if_neg (by omega), if_neg hnew, hgrow, if_neg (by decide), hnext]
    exact ih (hnext ▸ h)

theorem range_store (m : ℤ → UInt8) (s : List UInt8) : ((List.range s.length).map fun i : ℕ => store m 0 s i) = s := by
  apply List.ext_getElem (by simp)
  intro i h1 h2
  have hat := (at_store s m 0).getElem i h2
  rw [zero_add] at hat
  rw [List.getElem_map, List.getElem_range]
  exact hat

/-- **What was written is read**: where the environment has a package, the start finds the networks of it in their order. -/
theorem refresh_saved {o : RefreshOut} (hmem : o.mem = true) (hgrow : ∀ n, o.grow n = true) (h : KnownList cache) {env : Env}
    (hlen : env .wlanCfgLen = some (CNum.decimal (infoPkg cache).length))
    (hinfo : env .wlanCfgInfo = some (Base64.encode letter padChar (infoPkg cache))) :
    rtWlanCfgCacheRefresh o env [] = some (cache, 0) := by
  have hsize := length_infoPkg cache
  have hbounded := h.bounded
  have hget : getLen env = (infoPkg cache).length := by
    rw [getLen, hlen]
    exact CNum.atoi_decimal _
  have hread := readCfg_encode hinfo o.around o.heap ((infoPkg cache).length : ℤ)
  rw [sizeofHead, sizeofCfgInfo] at hsize
  rw [rtWlanCfgInfoMax] at hbounded
  have hhead : ((List.range ((infoPkg cache).length : ℤ).toNat).map fun i : ℕ => store o.heap 0 (infoPkg cache) i) =
      infoPkg cache := range_store _ _
  have hdata : (infoPkg cache).drop sizeofHead = cfgData cache := by
    rw [infoPkg, List.drop_left' (by simp [sizeofHead])]
  have hword : ∀ (front : List UInt8) (n : ℕ) (back : List UInt8), n < 2 ^ 32 →
      Words.value (((front ++ Words.bytes 4 n ++ back).drop front.length).take 4) = n := by
    intro front n back hn
    rw [List.append_assoc, List.drop_left, List.take_left' (Words.length_bytes 4 n)]
    exact Words.value_bytes 4 hn
  -- the words of the header
  have hmagic : Words.value ((infoPkg cache).take 4) = rtWlanCfgMagic := by
    have h0 := hword [] rtWlanCfgMagic (Words.bytes 4 (sizeofHead + sizeofCfgInfo * cache.length) ++
      Words.bytes 4 cache.length ++ Words.bytes 4 (rtWlanCalCrc (cfgData cache)).toNat ++ cfgData cache) (by decide)
    simpa [infoPkg, List.append_assoc] using h0
  have hlenWord : Words.value (((infoPkg cache).drop 4).take 4) = sizeofHead + sizeofCfgInfo * cache.length := by
    have h4 := hword (Words.bytes 4 rtWlanCfgMagic) (sizeofHead + sizeofCfgInfo * cache.length) (Words.bytes 4 cache.length ++
      Words.bytes 4 (rtWlanCalCrc (cfgData cache)).toNat ++ cfgData cache) (by rw [sizeofHead, sizeofCfgInfo]; omega)
    simpa [infoPkg, List.append_assoc] using h4
  have hnum : Words.value (((infoPkg cache).drop 8).take 4) = cache.length := by
    have h8 := hword (Words.bytes 4 rtWlanCfgMagic ++ Words.bytes 4 (sizeofHead + sizeofCfgInfo * cache.length))
      cache.length (Words.bytes 4 (rtWlanCalCrc (cfgData cache)).toNat ++ cfgData cache) (by omega)
    simpa [infoPkg, List.append_assoc] using h8
  have hcrc : Words.value (((infoPkg cache).drop 12).take 4) = (rtWlanCalCrc (cfgData cache)).toNat := by
    have h12 := hword (Words.bytes 4 rtWlanCfgMagic ++ Words.bytes 4 (sizeofHead + sizeofCfgInfo * cache.length) ++
      Words.bytes 4 cache.length) (rtWlanCalCrc (cfgData cache)).toNat (cfgData cache)
      (lt_of_lt_of_le (BitVec.isLt _) (by decide))
    simpa [infoPkg, List.append_assoc] using h12
  have hvalid : ¬ (Words.value ((infoPkg cache).take 4) ≠ rtWlanCfgMagic ∨
      (Words.value (((infoPkg cache).drop 4).take 4) : ℤ) ≠ ((infoPkg cache).length : ℤ) ∨
      Words.value (((infoPkg cache).drop 8).take 4) ≠
        (((infoPkg cache).length : ℤ).toNat - sizeofHead) / sizeofCfgInfo ∨
      Words.value (((infoPkg cache).drop 12).take 4) ≠ (rtWlanCalCrc (cfgData cache)).toNat) := by
    rw [hmagic, hlenWord, hnum, hcrc, length_infoPkg, sizeofHead, sizeofCfgInfo]
    omega
  have hmerge : mergeInfos o.grow [] cache = (cache, 0) := mergeInfos_distinct hgrow h
  rw [rtWlanCfgCacheRefresh, hget]
  simp only [hread, hhead, hdata, List.length_nil, hmem, Bool.not_true, Bool.false_eq_true, if_false, ne_eq, not_true_eq_false]
  rw [if_neg (by decide), if_neg (by omega), if_neg (by rw [sizeofHead]; omega), if_neg hvalid, hnum, readInfos_cfgData,
    hmerge]

end Refresh

end W601.Wifi
