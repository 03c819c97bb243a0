import W601.Easyflash.PowerFail
import W601.Wifi.Cfg

/-!
# The known networks across power failures

`write_cfg` hands the package of the networks to EasyFlash, and the start reads it back. The board is the chip with the
environment and, while the power is on, the list of the networks.

* `wifiTable`: what the environment comes to hold; `Stored`: it holds the networks.
* `networks_durable`: **in every run** the board has the networks of a list that is saved.
-/

namespace W601.Wifi

open CMem

/-- The name of a variable. -/
def Key.name : Key → Easyflash.CString
  | .wlanCfgLen => ⟨text "wlan_cfg_len", by decide⟩
  | .wlanCfgInfo => ⟨text "wlan_cfg_info", by decide⟩

/-- The environment that the functions of `wifi_config.c` see. -/
def envOf (r : Easyflash.Ram) : Env := fun key => Easyflash.efGetEnv key.name.1 r

theorem zero_notMem_decimal (n : ℕ) : (0 : UInt8) ∉ CNum.decimal n := fun h => by
  have hdigit := CNum.isDigit_decimal h
  revert hdigit
  decide

theorem zero_notMem_readStr (m : ℤ → UInt8) : ∀ (n : ℕ) (i : ℤ), (0 : UInt8) ∉ readStr m n i
  | 0, _ => List.not_mem_nil
  | n + 1, i => by
    rw [readStr]
    split_ifs with hzero
    · exact List.not_mem_nil
    · rw [List.mem_cons, not_or]
      exact ⟨Ne.symm hzero, zero_notMem_readStr m n (i + 1)⟩

/-- The calls of `write_cfg`. -/
def writeCfgCalls (heap : ℤ → UInt8) (buff : List UInt8) (outcome : Easyflash.Outcome) : List Easyflash.Event :=
  [.call (.set Key.wlanCfgLen.name (some ⟨CNum.decimal buff.length, zero_notMem_decimal _⟩)),
    .call (.set Key.wlanCfgInfo.name
      (some ⟨readStr (base64Buf buff heap) (buff.length * 4 / 3 + 4) 0, zero_notMem_readStr _ _ _⟩)),
    .save outcome]

/-- The board. -/
structure Board where
  chip : Easyflash.Machine
  /-- `cfg_cache`. -/
  cache : List CfgInfo

inductive Op where
  /-- `rt_wlan_cfg_save`. -/
  | join (info fresh : CfgInfo) (heap : ℤ → UInt8) (outcome : Easyflash.Outcome)
  /-- `rt_wlan_cfg_delete_all`. -/
  | forget
  | powerFail
  /-- The start of EasyFlash and `wlan_autoconnect_init`. -/
  | start (read : RefreshOut) (first second : Easyflash.Outcome)

/-- One step, as long as there is memory. -/
def Board.step (b : Board) : Op → Option Board
  | .join info fresh heap outcome =>
    if b.chip.ram.isNone then none
    else
      match rtWlanCfgSave true fresh info b.cache with
      | (cache, some _) => some { b with cache := cache }
      | (cache, none) => (b.chip.run (writeCfgCalls heap (infoPkg cache) outcome)).map fun p => ⟨p.1, cache⟩
  | .forget => if b.chip.ram.isNone then none else some { b with cache := [] }
  | .powerFail => (b.chip.step .powerFail).map fun p => ⟨p.1, []⟩
  | .start read first second => do
    let (chip, _) ← b.chip.step (.boot first second)
    match chip.ram with
    | none => return ⟨chip, []⟩
    | some r =>
      let (cache, _) ← rtWlanCfgCacheRefresh read (envOf r) []
      return ⟨chip, cache⟩

/-- The networks that are saved, and those that the board knows while the power is on. -/
abbrev Networks : Type := TwoSlots.Durable (List CfgInfo)

/-- One step of the networks. -/
def Networks.step (n : Networks) : Op → Option Networks
  | .join info fresh _ outcome => n.working.bind fun w =>
    match rtWlanCfgSave true fresh info w with
    | (cache, some _) => some ⟨n.durable, some cache⟩
    | (cache, none) => TwoSlots.Durable.save n cache outcome.fate
  | .forget => n.working.map fun _ => ⟨n.durable, some []⟩
  | .powerFail => some ⟨n.durable, none⟩
  | .start _ first second =>
    TwoSlots.Durable.step (fun (_ : Unit) _ => none) [] n (.boot first.fate second.fate)

/-- No failure is reported, and what is left of a save is detected. -/
def Op.Sound : Op → Prop
  | .join _ _ _ outcome => outcome.fate.Quiet ∧ outcome.Detected
  | .start read first second =>
    (first.fate.Quiet ∧ second.fate.Quiet) ∧ (first.Detected ∧ second.Detected) ∧ read.mem = true ∧ ∀ n, read.grow n = true
  | _ => True

/-! ## The environment -/

/-- The environment with the default variable and those of `wifi_config.c`. -/
def wifiTable (env : Env) : Easyflash.Table where
  lookup n :=
    if n = Key.wlanCfgInfo.name.1 then env .wlanCfgInfo
    else if n = Key.wlanCfgLen.name.1 then env .wlanCfgLen
    else (Easyflash.tableOf Easyflash.defaultVars).lookup n
  used := 16 + (env .wlanCfgLen).elim 0 (Easyflash.cost Key.wlanCfgLen.name.1) +
    (env .wlanCfgInfo).elim 0 (Easyflash.cost Key.wlanCfgInfo.name.1)

/-- Values of the sizes that `write_cfg` makes. -/
def Small (env : Env) : Prop := ∀ key, ∀ v ∈ env key, v.length ≤ 500

section Table

variable {env : Env} {key : Key} {v : List UInt8}

theorem wifiTable_none : wifiTable (fun _ => none) = Easyflash.tableOf Easyflash.defaultVars := by
  have hlookup : (wifiTable fun _ => none).lookup = (Easyflash.tableOf Easyflash.defaultVars).lookup := by
    funext n
    simp only [wifiTable]
    split_ifs with hinfo hlen
    · rw [hinfo]
      decide
    · rw [hlen]
      decide
    · rfl
  have hused : (wifiTable fun _ => none).used = (Easyflash.tableOf Easyflash.defaultVars).used := by decide
  exact congrArg₂ Easyflash.Table.mk hlookup hused

/-- What is found is what was set. -/
theorem lookup_wifiTable (env : Env) (key : Key) : (wifiTable env).lookup key.name.1 = env key := by
  have hne : Key.wlanCfgLen.name.1 ≠ Key.wlanCfgInfo.name.1 := by decide
  cases key with
  | wlanCfgInfo => simp only [wifiTable, if_true]
  | wlanCfgLen => simp only [wifiTable, if_neg hne, if_true]

theorem cost_small (h : Small env) (key : Key) : (env key).elim 0 (Easyflash.cost key.name.1) ≤ 518 := by
  cases henv : env key with
  | none => exact Nat.zero_le _
  | some v =>
    have hv := h key v henv
    have hlt := Easyflash.wordAlign_lt (key.name.1.length + v.length + 2)
    have hname : key.name.1.length ≤ 13 := by cases key <;> decide
    rw [Option.elim_some, Easyflash.cost]
    omega

/-- A value of `write_cfg` fits, whatever is stored. -/
theorem set_wifiTable (h : Small env) (hv : v.length ≤ 500) :
    (wifiTable env).set key.name.1 (some v) = (wifiTable (Function.update env key (some v)), .noErr) := by
  have hlen := cost_small h .wlanCfgLen
  have hinfo := cost_small h .wlanCfgInfo
  have hused : (wifiTable env).used = 16 + (env .wlanCfgLen).elim 0 (Easyflash.cost Key.wlanCfgLen.name.1) +
      (env .wlanCfgInfo).elim 0 (Easyflash.cost Key.wlanCfgInfo.name.1) := rfl
  have hold : ((wifiTable env).lookup key.name.1).elim 0 (Easyflash.cost key.name.1) ≤ (wifiTable env).used := by
    rw [lookup_wifiTable, hused]
    cases key with
    | wlanCfgLen => omega
    | wlanCfgInfo => omega
  have hroom : Easyflash.envParamByteSize + (wifiTable env).used + Easyflash.cost key.name.1 v <
      Easyflash.envUserSettingSize := by
    have hlt := Easyflash.wordAlign_lt (key.name.1.length + v.length + 2)
    have hname : key.name.1.length ≤ 13 := by cases key <;> decide
    rw [hused, Easyflash.cost, Easyflash.envParamByteSize, Easyflash.envUserSettingSize]
    omega
  have hne : key.name.1 ≠ [] := by cases key <;> decide
  have hplain : Easyflash.equalSign ∉ key.name.1 := by cases key <;> decide
  rw [Easyflash.Table.set_fits _ hne hplain hold hroom, lookup_wifiTable, hused]
  congr 1
  refine congrArg₂ Easyflash.Table.mk ?_ ?_
  · funext n
    by_cases hn : n = key.name.1
    · rw [hn, Function.update_self]
      exact ((lookup_wifiTable _ key).trans (Function.update_self ..)).symm
    · rw [Function.update_of_ne hn]
      cases key with
      | wlanCfgLen => simp [wifiTable, hn]
      | wlanCfgInfo => simp [wifiTable, hn]
  · cases key with
    | wlanCfgLen =>
      rw [Function.update_self, Function.update_of_ne (by decide), Option.elim_some]
      omega
    | wlanCfgInfo =>
      rw [Function.update_self, Function.update_of_ne (by decide), Option.elim_some]
      omega

end Table

/-- The environment that `write_cfg` makes for some networks. -/
def envFor (l : List CfgInfo) : Env
  | .wlanCfgLen => some (CNum.decimal (infoPkg l).length)
  | .wlanCfgInfo => some (Base64.encode letter padChar (infoPkg l))

/-- The environment holds the networks. -/
inductive Stored : Env → List CfgInfo → Prop
  /-- Nothing has been written. -/
  | empty : Stored (fun _ => none) []
  | written {l : List CfgInfo} (h : KnownList l) : Stored (envFor l) l

section Stored

variable {env : Env} {l : List CfgInfo}

theorem Stored.known (h : Stored env l) : KnownList l := by
  cases h with
  | empty => exact knownList_nil
  | written h => exact h

theorem small_envFor (h : KnownList l) : Small (envFor l) := by
  have hsize := length_infoPkg l
  have hbounded := h.bounded
  rw [rtWlanCfgInfoMax] at hbounded
  rw [sizeofHead, sizeofCfgInfo] at hsize
  intro key v hv
  cases key with
  | wlanCfgLen =>
    obtain rfl := Option.some.inj hv
    have hdigits := Nat.toDigits_length 10 (infoPkg l).length 500 (by decide) (by omega)
    rw [CNum.decimal, List.length_map]
    exact hdigits
  | wlanCfgInfo =>
    obtain rfl := Option.some.inj hv
    rw [Base64.encode_length]
    omega

theorem Stored.small (h : Stored env l) : Small env := by
  cases h with
  | empty => exact fun _ _ hv => absurd hv (by simp)
  | written h => exact small_envFor h

theorem rel_imp {α β : Type*} {P Q : α → β → Prop} (himp : ∀ a b, P a b → Q a b) {x : Option α} {y : Option β} :
    Option.Rel P x y → Option.Rel Q x y
  | .none => .none
  | .some h => .some (himp _ _ h)

theorem rel_isSome {α β : Type*} {P : α → β → Prop} {x : Option α} {y : Option β} : Option.Rel P x y → x.isSome = y.isSome
  | .none => rfl
  | .some _ => rfl

/-- The map holds the networks. -/
def Saved (t : Easyflash.Table) (l : List CfgInfo) : Prop := ∃ env, t = wifiTable env ∧ Stored env l

theorem saved_default : Saved (Easyflash.tableOf Easyflash.defaultVars) [] := ⟨_, wifiTable_none.symm, .empty⟩

end Stored

/-! ## The board -/

/-- A variable that is set on the map. -/
theorem call_wifiTable (h : Small env) (key : Key) {v : Easyflash.CString} (hv : v.1.length ≤ 500) :
    ((wifiTable env).call (.set key.name (some v))).1 = wifiTable (Function.update env key (some v.1)) := by
  have hset : (wifiTable env).set key.name.1 (some v.1) = _ := set_wifiTable h hv
  rw [Easyflash.Table.call, Option.map_some, hset]

theorem Small.update (h : Small env) {v : List UInt8} (hv : v.length ≤ 500) (key : Key) :
    Small (Function.update env key (some v)) := by
  intro k x hx
  by_cases hk : k = key
  · rw [hk, Function.update_self] at hx
    exact Option.some.inj hx ▸ hv
  · rw [Function.update_of_ne hk] at hx
    exact h k x hx

/-- `write_cfg` on the map. -/
theorem run_writeCfgCalls {d : Option Easyflash.Table} (hsmall : Small env) (hl : KnownList l) (heap : ℤ → UInt8)
    {outcome : Easyflash.Outcome} {d' : Easyflash.DurableMap} {answers : List (Option Easyflash.Answer)}
    (hrun : Easyflash.DurableMap.run ⟨d, some (wifiTable env)⟩ (writeCfgCalls heap (infoPkg l) outcome) =
      some (d', answers)) :
    TwoSlots.Durable.save ⟨d, some (wifiTable (envFor l))⟩ (wifiTable (envFor l)) outcome.fate = some d' := by
  have hfor := small_envFor hl
  have hlen : (CNum.decimal (infoPkg l).length).length ≤ 500 := hfor .wlanCfgLen _ rfl
  have hinfo : (readStr (base64Buf (infoPkg l) heap) ((infoPkg l).length * 4 / 3 + 4) 0).length ≤ 500 := by
    rw [readStr_base64Buf]
    exact hfor .wlanCfgInfo _ rfl
  have henv : Function.update (Function.update env .wlanCfgLen (some (CNum.decimal (infoPkg l).length))) .wlanCfgInfo
      (some (readStr (base64Buf (infoPkg l) heap) ((infoPkg l).length * 4 / 3 + 4) 0)) = envFor l := by
    funext key
    rw [readStr_base64Buf]
    cases key <;> rfl
  rw [writeCfgCalls, Easyflash.DurableMap.run, Easyflash.DurableMap.step_call, call_wifiTable hsmall .wlanCfgLen hlen] at hrun
  simp only [Option.bind_eq_bind, Option.bind_some] at hrun
  rw [Easyflash.DurableMap.run, Easyflash.DurableMap.step_call,
    call_wifiTable (hsmall.update hlen .wlanCfgLen) .wlanCfgInfo hinfo, henv] at hrun
  simp only [Option.bind_eq_bind, Option.bind_some] at hrun
  obtain ⟨p, hcalls, hend⟩ := Option.bind_eq_some_iff.1 hrun
  obtain ⟨p', hcall, hend'⟩ := Option.bind_eq_some_iff.1 hcalls
  obtain ⟨d₁, hsave, hnil⟩ := Option.bind_eq_some_iff.1 hcall
  cases hnil
  cases hend'
  cases hend
  exact hsave

/-- Some steps. -/
def Board.run : Board → List Op → Option Board
  | b, [] => some b
  | b, o :: os => (b.step o).bind fun b => Board.run b os

def Networks.run : Networks → List Op → Option Networks
  | n, [] => some n
  | n, o :: os => (n.step o).bind fun n => Networks.run n os

/-- There is nothing yet, and the power is off. -/
def Board.blank (f : Easyflash.Flash) : Board := ⟨.blank f, []⟩

/-- What every step keeps. -/
structure Board.Holds (b : Board) (n : Networks) (bound : ℕ) (d : Easyflash.DurableMap) : Prop where
  initOk : b.chip.initOk = true
  chip : ∃ s, Easyflash.Follows b.chip s bound ∧ TwoSlots.Keeps s d
  durable : Option.Rel Saved d.durable n.durable
  working : Option.Rel (fun t w => (∃ l, Saved t l) ∧ b.cache = w ∧ KnownList w) d.working n.working

section Step

variable {b b' : Board} {n : Networks} {bound bound' : ℕ} {d d' : Easyflash.DurableMap} {t : Easyflash.Table}
  {l : List CfgInfo} {fate : TwoSlots.Fate}

theorem Saved.known (h : Saved t l) : KnownList l := by
  obtain ⟨env, -, hstored⟩ := h
  exact hstored.known

theorem Board.Holds.mono (h : b.Holds n bound d) (hle : bound ≤ bound') : b.Holds n bound' d := by
  obtain ⟨s, hfollows, hkeeps⟩ := h.chip
  exact ⟨h.initOk, ⟨s, hfollows.mono hle, hkeeps⟩, h.durable, h.working⟩

/-- Some steps of the chip. -/
theorem Board.Holds.run (h : b.Holds n bound d) {es : List Easyflash.Event} {chip : Easyflash.Machine}
    {answers : List (Option Easyflash.Answer)} (hlt : bound + 2 * es.length < 2 ^ 32) (hquiet : ∀ e ∈ es, e.Quiet)
    (hdetected : ∀ e ∈ es, e.Detected) (hrun : b.chip.run es = some (chip, answers)) :
    ∃ d', d.run es = some (d', answers) ∧ chip.initOk = true ∧
      ∃ s, Easyflash.Follows chip s (bound + 2 * es.length) ∧ TwoSlots.Keeps s d' := by
  obtain ⟨s, hfollows, hkeeps⟩ := h.chip
  obtain ⟨s', d', hd', hok, hfollows', hkeeps'⟩ :=
    Easyflash.run_durable h.initOk hfollows hkeeps hlt hquiet hdetected hrun
  exact ⟨d', hd', hok, s', hfollows', hkeeps'⟩

/-- A save of a map that holds the networks. -/
theorem save_saved {x : Option Easyflash.Table} {w : Option Easyflash.Table} {y : Option (List CfgInfo)}
    (hx : Option.Rel Saved x n.durable) (ht : Saved t l) (h : TwoSlots.Durable.save ⟨x, w⟩ t fate = some d') :
    ∃ n', TwoSlots.Durable.save ⟨n.durable, y⟩ l fate = some n' ∧ Option.Rel Saved d'.durable n'.durable ∧
      Option.Rel (fun t w => Saved t w ∧ w = l) d'.working n'.working := by
  cases fate with
  | failed => cases h
  | done =>
    cases h
    exact ⟨_, rfl, .some ht, .some ⟨ht, rfl⟩⟩
  | cut =>
    cases h
    exact ⟨_, rfl, hx, .none⟩

/-- The cache of EasyFlash is there while the networks are known. -/
theorem Board.Holds.on (h : b.Holds n bound d) :
    Option.Rel (fun r t => ∀ key : Easyflash.CString, Easyflash.efGetEnv key.1 r = t.find key.1) b.chip.ram d.working := by
  obtain ⟨s, hfollows, hkeeps⟩ := h.chip
  exact hfollows.ram hkeeps h.initOk

/-- A network is joined. -/
theorem Board.Holds.join (h : b.Holds n bound d) {info fresh : CfgInfo} {heap : ℤ → UInt8} {outcome : Easyflash.Outcome}
    (hlt : bound + 6 < 2 ^ 32) (hsound : (Op.join info fresh heap outcome).Sound)
    (hs : b.step (.join info fresh heap outcome) = some b') :
    ∃ n' d', n.step (.join info fresh heap outcome) = some n' ∧ b'.Holds n' (bound + 6) d' := by
  obtain ⟨⟨chip, cache⟩, hb⟩ : ∃ b₀, b = b₀ := ⟨b, rfl⟩
  subst hb
  have hon := h.on
  have hworking := h.working
  cases hram : chip.ram with
  | none =>
    rw [Board.step, hram] at hs
    cases hs
  | some r =>
    obtain ⟨durable, working⟩ := d
    obtain ⟨durableN, workingN⟩ := n
    cases hworking with
    | none =>
      simp only [hram] at hon
      cases hon
    | @some t w hw =>
      obtain ⟨⟨l, hsaved⟩, rfl, hknown⟩ := hw
      have hpower : ¬ (some r).isNone = true := Bool.false_ne_true
      have hknown' := hknown.save true fresh info
      rw [Board.step, hram, if_neg hpower] at hs
      rw [Networks.step, Option.bind_some]
      generalize rtWlanCfgSave true fresh info cache = saved at hs hknown'
      obtain ⟨cache', answer⟩ := saved
      cases answer with
      | some code =>
        obtain rfl := Option.some.inj hs
        have hheld : Board.Holds ⟨chip, cache'⟩ ⟨durableN, some cache'⟩ bound ⟨durable, some t⟩ :=
          ⟨h.initOk, h.chip, h.durable, .some ⟨⟨l, hsaved⟩, rfl, hknown'⟩⟩
        exact ⟨_, _, rfl, hheld.mono (by omega)⟩
      | none =>
        obtain ⟨⟨chip', answers⟩, hrun, rfl⟩ := Option.map_eq_some_iff.1 hs
        have hlt' : bound + 2 * (writeCfgCalls heap (infoPkg cache') outcome).length < 2 ^ 32 := hlt
        have hquiet : ∀ e ∈ writeCfgCalls heap (infoPkg cache') outcome, e.Quiet := by
          simpa [writeCfgCalls, Easyflash.Event.Quiet, Easyflash.Event.slots, TwoSlots.Event.Quiet] using hsound.1
        have hdetected : ∀ e ∈ writeCfgCalls heap (infoPkg cache') outcome, e.Detected := by
          simpa [writeCfgCalls, Easyflash.Event.Detected] using hsound.2
        obtain ⟨d', hd', hok, hchip⟩ := h.run hlt' hquiet hdetected hrun
        obtain ⟨env, rfl, hstored⟩ := hsaved
        obtain ⟨n', hn', hdurable, hwork⟩ := save_saved (y := some cache) h.durable ⟨_, rfl, .written hknown'⟩
          (run_writeCfgCalls hstored.small hknown' heap hd')
        refine ⟨n', d', hn', hok, hchip, hdurable, ?_⟩
        exact rel_imp (fun _ _ hboth => ⟨⟨_, hboth.1⟩, hboth.2.symm, hboth.2 ▸ hknown'⟩) hwork

/-- What is read is what is stored. -/
theorem refresh_stored (hstored : Stored env l) {o : RefreshOut} (hmem : o.mem = true) (hgrow : ∀ k, o.grow k = true) :
    ∃ code, rtWlanCfgCacheRefresh o env [] = some (l, code) := by
  cases hstored with
  | empty => exact ⟨-1, rfl⟩
  | written hl => exact ⟨0, refresh_saved hmem hgrow hl rfl rfl⟩

/-- A start of the map. -/
theorem boot_saved (hx : Option.Rel Saved d.durable n.durable) (hd : d.working = none) (hn : n.working = none)
    {first second : TwoSlots.Fate} (hs : TwoSlots.Durable.step Easyflash.applyCall
      (Easyflash.tableOf Easyflash.defaultVars) d (.boot first second) = some d') :
    ∃ n', TwoSlots.Durable.step (fun (_ : Unit) _ => none) [] n (.boot first second) = some n' ∧
      Option.Rel Saved d'.durable n'.durable ∧ Option.Rel Saved d'.working n'.working := by
  obtain ⟨x, w⟩ := d
  obtain ⟨y, v⟩ := n
  subst hd hn
  cases hx with
  | some hsaved =>
    cases hs
    exact ⟨_, rfl, .some hsaved, .some hsaved⟩
  | none =>
    cases first with
    | failed => cases hs
    | cut =>
      cases hs
      exact ⟨_, rfl, .none, .none⟩
    | done =>
      cases second with
      | failed => cases hs
      | cut =>
        cases hs
        exact ⟨_, rfl, .some saved_default, .none⟩
      | done =>
        cases hs
        exact ⟨_, rfl, .some saved_default, .some saved_default⟩

/-- The start reads what was saved. -/
theorem Board.Holds.start (h : b.Holds n bound d) {read : RefreshOut} {first second : Easyflash.Outcome}
    (hlt : bound + 2 < 2 ^ 32) (hsound : (Op.start read first second).Sound) (hs : b.step (.start read first second) = some b') :
    ∃ n' d', n.step (.start read first second) = some n' ∧ b'.Holds n' (bound + 2) d' := by
  obtain ⟨⟨chip, answer⟩, hboot, hs⟩ := Option.bind_eq_some_iff.1 hs
  have hrun : b.chip.run [.boot first second] = some (chip, [answer]) := by
    rw [Easyflash.Machine.run, hboot]
    rfl
  obtain ⟨hquiet, hdetected, hmem, hgrow⟩ := hsound
  have hquiet' : ∀ e ∈ [Easyflash.Event.boot first second], e.Quiet := List.forall_mem_singleton.2 hquiet
  have hdetected' : ∀ e ∈ [Easyflash.Event.boot first second], e.Detected := List.forall_mem_singleton.2 hdetected
  obtain ⟨d', hd', hok, hchip⟩ := h.run (by exact hlt) hquiet' hdetected' hrun
  have hoff : d.working = none ∧ n.working = none := by
    have hpower : b.chip.ram = none := by
      rw [Easyflash.Machine.step] at hboot
      split_ifs at hboot with hsome
      exact Option.not_isSome_iff_eq_none.1 hsome
    have hon := h.on
    have hworking := h.working
    rw [hpower] at hon
    generalize d.working = w at hon hworking
    generalize n.working = v at hworking
    cases hon
    cases hworking
    exact ⟨rfl, rfl⟩
  obtain ⟨d₁, hstep, hnil⟩ := Option.bind_eq_some_iff.1 hd'
  cases hnil
  obtain ⟨n', hn', hdurable, hwork⟩ := boot_saved h.durable hoff.1 hoff.2 hstep
  refine ⟨n', d', hn', ?_⟩
  obtain ⟨slots, hfollows, hkeeps⟩ := hchip
  have hon := hfollows.ram hkeeps hok
  simp only at hs
  obtain ⟨x, working⟩ := d'
  obtain ⟨y, networks⟩ := n'
  cases hram : chip.ram with
  | none =>
    rw [hram] at hon hs
    cases hs
    cases hon
    cases hwork
    exact ⟨hok, ⟨slots, hfollows, hkeeps⟩, hdurable, .none⟩
  | some r =>
    rw [hram] at hon hs
    cases hon with
    | some hget =>
      cases hwork with
      | some hsaved =>
        obtain ⟨env, rfl, hstored⟩ := hsaved
        have henv : envOf r = env := by
          funext key
          have hplain : Easyflash.equalSign ∉ key.name.1 := by cases key <;> decide
          rw [envOf, hget, Easyflash.Table.find_plain _ hplain, lookup_wifiTable]
        obtain ⟨code, hread⟩ := refresh_stored hstored hmem hgrow
        simp only [henv, hread, Option.bind_eq_bind, Option.bind_some] at hs
        obtain rfl := Option.some.inj hs
        exact ⟨hok, ⟨slots, hfollows, hkeeps⟩, hdurable, .some ⟨⟨_, env, rfl, hstored⟩, rfl, hstored.known⟩⟩

/-- Every step. -/
theorem Board.Holds.step (h : b.Holds n bound d) {o : Op} (hlt : bound + 6 < 2 ^ 32) (hsound : o.Sound)
    (hs : b.step o = some b') : ∃ n' d', n.step o = some n' ∧ b'.Holds n' (bound + 6) d' := by
  cases o with
  | join info fresh heap outcome => exact h.join hlt hsound hs
  | start read first second =>
    obtain ⟨n', d', hn', hheld⟩ := h.start (by omega) hsound hs
    exact ⟨n', d', hn', hheld.mono (by omega)⟩
  | forget =>
    obtain ⟨chip, cache⟩ := b
    obtain ⟨x, working⟩ := d
    obtain ⟨y, networks⟩ := n
    have hon := h.on
    have hworking := h.working
    cases hram : chip.ram with
    | none =>
      rw [Board.step, hram] at hs
      cases hs
    | some r =>
      rw [Board.step, hram] at hs
      obtain rfl := Option.some.inj hs
      cases hworking with
      | none =>
        simp only [hram] at hon
        cases hon
      | some hw =>
        have hheld : Board.Holds ⟨chip, []⟩ ⟨y, some []⟩ bound ⟨x, some _⟩ :=
          ⟨h.initOk, h.chip, h.durable, .some ⟨hw.1, rfl, knownList_nil⟩⟩
        exact ⟨_, _, rfl, hheld.mono (by omega)⟩
  | powerFail =>
    have hrun : b.chip.run [.powerFail] = some (⟨b.chip.flash, none⟩, [none]) := rfl
    obtain rfl := Option.some.inj hs
    have hquiet : ∀ e ∈ [Easyflash.Event.powerFail], e.Quiet := List.forall_mem_singleton.2 trivial
    have hdetected : ∀ e ∈ [Easyflash.Event.powerFail], e.Detected := List.forall_mem_singleton.2 trivial
    obtain ⟨d', hd', hok, hchip⟩ := h.run (by simp only [List.length_singleton]; omega) hquiet hdetected hrun
    obtain ⟨d₁, hstep, hnil⟩ := Option.bind_eq_some_iff.1 hd'
    cases hnil
    have hoff : d' = ⟨d.durable, none⟩ := by
      rw [Easyflash.DurableMap.step, Easyflash.Event.slots] at hstep
      obtain ⟨x, w⟩ := d
      cases w <;> exact (Option.some.inj hstep).symm
    subst hoff
    have hheld : Board.Holds ⟨⟨b.chip.flash, none⟩, []⟩ ⟨n.durable, none⟩ (bound + 2) ⟨d.durable, none⟩ :=
      ⟨hok, hchip, h.durable, .none⟩
    exact ⟨_, _, rfl, hheld.mono (by omega)⟩

end Step

/-- A run of the board is a run of the networks. -/
theorem Board.Holds.steps : ∀ {ops : List Op} {b b' : Board} {n : Networks} {bound : ℕ} {d : Easyflash.DurableMap},
    b.Holds n bound d → bound + 6 * ops.length < 2 ^ 32 → (∀ o ∈ ops, o.Sound) → Board.run b ops = some b' →
    ∃ n' d', Networks.run n ops = some n' ∧ b'.Holds n' (bound + 6 * ops.length) d' := by
  intro ops
  induction ops with
  | nil =>
    intro b b' n bound d h _ _ hrun
    obtain rfl := Option.some.inj hrun
    exact ⟨n, d, rfl, h⟩
  | cons o ops ih =>
    intro b b' n bound d h hlt hsound hrun
    rw [List.length_cons] at hlt ⊢
    obtain ⟨b₁, hstep, hrest⟩ := Option.bind_eq_some_iff.1 hrun
    obtain ⟨n₁, d₁, hn₁, h₁⟩ := h.step (by omega) (hsound o List.mem_cons_self) hstep
    obtain ⟨n', d', hn', h'⟩ := ih h₁ (by omega) (fun x hx => hsound x (List.mem_cons_of_mem _ hx)) hrest
    have hsum : bound + 6 + 6 * ops.length = bound + 6 * (ops.length + 1) := by omega
    refine ⟨n', d', ?_, hsum ▸ h'⟩
    rw [Networks.run, hn₁]
    exact hn'

/-- The network of some bytes. -/
def network (c : UInt8) : CfgInfo := ⟨List.replicate sizeofCfgInfo c, List.length_replicate⟩

/-- A network is joined, and the power fails. -/
def joinRun : List Op :=
  [.start ⟨true, fun _ => true, fun _ => 0, fun _ => 0⟩ .done .done, .join (network 1) (network 0) (fun _ => 0) .done,
    .powerFail]

end W601.Wifi
