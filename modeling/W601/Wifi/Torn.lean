import W601.Lib.Runs
import W601.Wifi.Config

/-!
# WiFi configurations and failing writes

`write_cfg` stores the length and the bytes of a configuration in two variables and does not look at the
answers of EasyFlash. A run is a list of calls of `write_cfg`, with the outcome of every call of
EasyFlash in them, and of reboots.

* `readsBack_iff`: a read gives what some call was given when the two variables belong together.
* `read_given_iff`: which runs keep them together.
* `torn_overflows_buffer`: a run that does not.
-/

namespace W601.Wifi

open CMem CNum Runs

/-- The variables in RAM and in flash, the configurations that were given to `write_cfg`, and whether the size of
a block was too large for an `int`. -/
structure Nvs where
  cache : Env
  flash : Env
  given : List (List UInt8)
  overflow : Bool

/-- Nothing is stored. -/
def blank : Nvs := ⟨fun _ => none, fun _ => none, [], false⟩

/-- What happens to the variables. -/
inductive NvsEv
  | write (o : WriteOut) (b : List UInt8)
  | reboot

/-- One call of `write_cfg`, or a reboot, which loads the variables that were saved. -/
def nvsStep (s : Nvs) : NvsEv → Option Nvs
  | .write o b =>
    let env := (writeCfg o b s.cache).2
    some ⟨env, if o.mem && o.save then env else s.flash, b :: s.given, s.overflow || decide (2 ^ 31 ≤ 4 * b.length)⟩
  | .reboot => some { s with cache := s.flash }

/-- `get_len`, and `read_cfg` with a buffer of that size: no cell outside of the buffer is written, and there is no
configuration or the buffer holds one that was given to `write_cfg`. -/
def ReadsBack (env : Env) (given : List (List UInt8)) : Prop :=
  (∀ cache buff i, i < 0 ∨ getLen env ≤ i → (readCfg env cache buff (getLen env)).2 i = buff i) ∧
  (getLen env = 0 ∨ (∀ cache buff, (readCfg env cache buff (getLen env)).1 = 0) ∨
    ∃ b ∈ given, getLen env = b.length ∧ ∀ cache buff, At (readCfg env cache buff (getLen env)).2 0 b)

/-- The two variables belong together. -/
def Matched (env : Env) (given : List (List UInt8)) : Prop :=
  env .wlanCfgInfo = none ∨
    ∃ b ∈ given, env .wlanCfgInfo = some (Base64.encode letter padChar b) ∧ getLen env = b.length

/-- The bytes are those of a configuration that was given. -/
def Known (env : Env) (given : List (List UInt8)) : Prop :=
  ∀ s, env .wlanCfgInfo = some s → ∃ b ∈ given, s = Base64.encode letter padChar b

variable {env : Env} {given : List (List UInt8)}

theorem Matched.known (h : Matched env given) : Known env given := by
  intro s hs
  obtain hnone | ⟨b, hb, hinfo, -⟩ := h
  · rw [hnone] at hs
    cases hs
  · rw [hinfo] at hs
    exact ⟨b, hb, (Option.some.inj hs).symm⟩

theorem Matched.mono (h : Matched env given) (b : List UInt8) : Matched env (b :: given) := by
  obtain hnone | ⟨c, hc, hinfo, hlen⟩ := h
  · exact Or.inl hnone
  · exact Or.inr ⟨c, List.mem_cons_of_mem _ hc, hinfo, hlen⟩

/-- A store that is seen at no other cell than those below `n` is of at most `n` bytes. -/
theorem length_le_of_store {b : List UInt8} {n : ℤ} (h : ∀ (buff : ℤ → UInt8) i, n ≤ i → store buff 0 b i = buff i) :
    (b.length : ℤ) ≤ n ∨ b = [] := by
  by_contra hlt
  push Not at hlt
  obtain ⟨hlt, hne⟩ := hlt
  have hpos : 0 < b.length := List.length_pos_iff.2 hne
  have hk : b.length - 1 < b.length := by omega
  -- a buffer that holds another byte there
  have hcell := (at_store b (fun _ => b[b.length - 1] + 1) 0).getElem (b.length - 1) hk
  rw [h _ _ (by omega)] at hcell
  simp at hcell

/-- A store that leaves `d`, whatever was there before, is of at least as many bytes. -/
theorem length_le_of_at_store {b d : List UInt8} (h : ∀ buff : ℤ → UInt8, At (store buff 0 b) 0 d) :
    d.length ≤ b.length := by
  by_contra hlt
  push Not at hlt
  -- a buffer that holds another byte behind `b`
  have hcell := (h fun _ => d[b.length] + 1).getElem b.length hlt
  rw [store_outside _ _ _ (by omega)] at hcell
  simp at hcell

/-- **A read gives what some call was given** exactly when the two variables belong together. -/
theorem readsBack_iff (hk : Known env given) : ReadsBack env given ↔ Matched env given := by
  constructor
  · rintro ⟨hin, hwhat⟩
    cases hinfo : env .wlanCfgInfo with
    | none => exact Or.inl hinfo
    | some s =>
      obtain ⟨b, hb, rfl⟩ := hk s hinfo
      simp only [readCfg_encode hinfo] at hin hwhat
      have hle : (b.length : ℤ) ≤ getLen env ∨ b = [] :=
        length_le_of_store fun buff i hi => hin (fun _ => 0) buff i (Or.inr hi)
      refine Or.inr ⟨b, hb, hinfo, ?_⟩
      obtain hzero | hzero | ⟨c, -, hlen, hat⟩ := hwhat
      · obtain hle | rfl := hle
        · omega
        · exact hzero
      · have hzero := hzero (fun _ => 0) fun _ => 0
        obtain hle | rfl := hle
        · omega
        · exact hzero
      · have hc := length_le_of_at_store fun buff => hat (fun _ => 0) buff
        obtain hle | rfl := hle
        · omega
        · simp only [List.length_nil] at hc ⊢
          omega
  · rintro (hnone | ⟨b, hb, hinfo, hlen⟩)
    · refine ⟨fun cache buff i _ => ?_, Or.inr (Or.inl fun cache buff => ?_)⟩
      · rw [readCfg, hnone]
      · rw [readCfg, hnone]
    · simp only [ReadsBack, readCfg_encode hinfo]
      refine ⟨fun cache buff i hi => store_outside b buff 0 (by omega), Or.inr (Or.inr ⟨b, hb, hlen, ?_⟩)⟩
      exact fun _ buff => at_store b buff 0

/-! ## Runs -/

/-- The steps that keep the two variables together: the sizes fit an `int`, and no set of `write_cfg` fails alone
unless the length is what it was before, or no bytes are stored. -/
def Tidy (s : Nvs) : NvsEv → Prop
  | .write o b => b.length < 2 ^ 29 ∧ (o.mem = false ∨ o.setLen = o.setInfo ∨ getLen s.cache = b.length ∨
      (o.setInfo = false ∧ s.cache .wlanCfgInfo = none))
  | .reboot => True

/-- The invariant of tidy runs. -/
structure NvsInv (s : Nvs) : Prop where
  cache : Matched s.cache s.given
  flash : Matched s.flash s.given
  overflow : s.overflow = false

/-- What a read gives, in a state of a run. -/
def Safe (s : Nvs) : Prop := s.overflow = false ∧ ReadsBack s.cache s.given

theorem NvsInv.safe {s : Nvs} (h : NvsInv s) : Safe s := ⟨h.overflow, (readsBack_iff h.cache.known).2 h.cache⟩

theorem nvsInv_blank : NvsInv blank := ⟨Or.inl rfl, Or.inl rfl, rfl⟩

theorem getLen_efSetEnv_info (ok : Bool) (v : List UInt8) (env : Env) :
    getLen (efSetEnv ok .wlanCfgInfo v env) = getLen env := by
  cases ok with
  | false => rfl
  | true => rfl

theorem getLen_efSetEnv_len (n : ℕ) (env : Env) :
    getLen (efSetEnv true .wlanCfgLen (decimal n) env) = n := by
  simp [getLen, efSetEnv, atoi_decimal]

theorem info_efSetEnv_len (ok : Bool) (v : List UInt8) (env : Env) :
    efSetEnv ok .wlanCfgLen v env .wlanCfgInfo = env .wlanCfgInfo := by
  cases ok with
  | false => rfl
  | true => rfl

/-- The variables behind the two sets of `write_cfg`. -/
def written (setLen setInfo : Bool) (b : List UInt8) (env : Env) : Env :=
  efSetEnv setInfo .wlanCfgInfo (Base64.encode letter padChar b) (efSetEnv setLen .wlanCfgLen (decimal b.length) env)

theorem getLen_written (setLen setInfo : Bool) (b : List UInt8) (env : Env) :
    getLen (written setLen setInfo b env) = if setLen then (b.length : ℤ) else getLen env := by
  rw [written, getLen_efSetEnv_info]
  cases setLen with
  | false => rfl
  | true => exact getLen_efSetEnv_len b.length env

theorem info_written (setLen setInfo : Bool) (b : List UInt8) (env : Env) :
    written setLen setInfo b env .wlanCfgInfo =
      if setInfo then some (Base64.encode letter padChar b) else env .wlanCfgInfo := by
  cases setInfo with
  | false => exact info_efSetEnv_len setLen _ env
  | true => simp [written, efSetEnv]

theorem known_written (h : Known env given) (setLen setInfo : Bool) (b : List UInt8) :
    Known (written setLen setInfo b env) (b :: given) := by
  intro s hs
  rw [info_written] at hs
  split at hs
  · exact ⟨b, List.mem_cons_self, (Option.some.inj hs).symm⟩
  · obtain ⟨d, hd, rfl⟩ := h s hs
    exact ⟨d, List.mem_cons_of_mem _ hd, rfl⟩

/-- The text tells the length. -/
theorem length_eq_of_encode_eq {b d : List UInt8}
    (h : Base64.encode letter padChar b = Base64.encode letter padChar d) : b.length = d.length := by
  have hstore : ∀ buff : ℤ → UInt8, store buff 0 b = store buff 0 d := by
    intro buff
    have hb := (strBase64Decode_encode b (at_store (Base64.encode letter padChar b) (fun _ => 0) 0) buff).1
    have hd := (strBase64Decode_encode d (at_store (Base64.encode letter padChar d) (fun _ => 0) 0) buff).1
    rw [← hb, ← hd, h]
  apply le_antisymm
  · exact length_le_of_at_store fun buff => hstore buff ▸ at_store b buff 0
  · exact length_le_of_at_store fun buff => (hstore buff).symm ▸ at_store d buff 0

/-- **Two sets keep the variables together** exactly when none of them fails alone, up to the cases in which that
is not seen. -/
theorem matched_written (h : Matched env given) (setLen setInfo : Bool) (b : List UInt8) :
    Matched (written setLen setInfo b env) (b :: given) ↔
      setLen = setInfo ∨ getLen env = b.length ∨ (setInfo = false ∧ env .wlanCfgInfo = none) := by
  have hlen := getLen_written setLen setInfo b env
  have hinfo := info_written setLen setInfo b env
  unfold Matched
  rw [hlen, hinfo]
  cases setLen with
  | false =>
    cases setInfo with
    | false => exact ⟨fun _ => Or.inl rfl, fun _ => h.mono b⟩
    | true =>
      constructor
      · rintro (hnone | ⟨d, -, htext, hd⟩)
        · cases hnone
        · have heq := length_eq_of_encode_eq (Option.some.inj htext)
          refine Or.inr (Or.inl ?_)
          rw [heq]
          exact hd
      · rintro (hne | hb | ⟨hne, -⟩)
        · cases hne
        · exact Or.inr ⟨b, List.mem_cons_self, rfl, hb⟩
        · cases hne
  | true =>
    cases setInfo with
    | true => exact ⟨fun _ => Or.inl rfl, fun _ => Or.inr ⟨b, List.mem_cons_self, rfl, rfl⟩⟩
    | false =>
      constructor
      · rintro (hnone | ⟨d, -, htext, hd⟩)
        · exact Or.inr (Or.inr ⟨rfl, hnone⟩)
        · obtain hnone | ⟨e, -, htext', he⟩ := h
          · exact Or.inr (Or.inr ⟨rfl, hnone⟩)
          · -- the old bytes have the new length
            have heq := length_eq_of_encode_eq (Option.some.inj (htext.symm.trans htext'))
            refine Or.inr (Or.inl ?_)
            rw [he, ← heq]
            exact hd.symm
      · rintro (hne | hb | ⟨-, hnone⟩)
        · cases hne
        · obtain hnone | ⟨e, he, htext, hlen'⟩ := h
          · exact Or.inl hnone
          · exact Or.inr ⟨e, List.mem_cons_of_mem _ he, htext, hb.symm.trans hlen'⟩
        · exact Or.inl hnone

/-- What a call of `write_cfg` leaves in RAM. -/
theorem cache_write {s t : Nvs} {o : WriteOut} {b : List UInt8} (h : nvsStep s (.write o b) = some t) :
    t.cache = (if o.mem then written o.setLen o.setInfo b s.cache else s.cache) ∧
      (t.flash = t.cache ∨ t.flash = s.flash) ∧ t.given = b :: s.given ∧
      t.overflow = (s.overflow || decide (2 ^ 31 ≤ 4 * b.length)) := by
  obtain rfl := Option.some.inj h
  refine ⟨?_, ?_, rfl, rfl⟩
  · cases hmem : o.mem with
    | false => simp [writeCfg, hmem]
    | true =>
      rw [writeCfg_eq hmem]
      rfl
  · by_cases hsave : (o.mem && o.save) = true
    · exact Or.inl (if_pos hsave)
    · exact Or.inr (if_neg hsave)

/-- A tidy step keeps the variables together. -/
theorem NvsInv.step {s t : Nvs} {x : NvsEv} (hs : NvsInv s) (hx : Tidy s x) (ht : nvsStep s x = some t) : NvsInv t := by
  cases x with
  | reboot =>
    obtain rfl := Option.some.inj ht
    exact ⟨hs.flash, hs.flash, hs.overflow⟩
  | write o b =>
    obtain ⟨hcache, hflash, hgiven, hover⟩ := cache_write ht
    obtain ⟨hlt, hx⟩ := hx
    have hmatched : Matched t.cache t.given := by
      rw [hcache, hgiven]
      split
      · rename_i hmem
        refine (matched_written hs.cache o.setLen o.setInfo b).2 (hx.resolve_left ?_)
        simp [hmem]
      · exact hs.cache.mono b
    refine ⟨hmatched, ?_, ?_⟩
    · obtain hflash | hflash := hflash
      · rw [hflash]
        exact hmatched
      · rw [hflash, hgiven]
        exact hs.flash.mono b
    · rw [hover, hs.overflow, Bool.false_or, decide_eq_false_iff_not]
      omega

/-- Any other step is seen in the next read. -/
theorem NvsInv.not_safe {s t : Nvs} {x : NvsEv} (hs : NvsInv s) (hx : ¬ Tidy s x) (ht : nvsStep s x = some t) :
    ¬ Safe t := by
  cases x with
  | reboot => exact absurd trivial hx
  | write o b =>
    obtain ⟨hcache, -, hgiven, hover⟩ := cache_write ht
    rintro ⟨hsafe, hread⟩
    apply hx
    refine ⟨?_, ?_⟩
    · rw [hover, hs.overflow, Bool.false_or, decide_eq_false_iff_not] at hsafe
      omega
    · cases hmem : o.mem with
      | false => exact Or.inl rfl
      | true =>
        rw [hmem, if_pos rfl] at hcache
        rw [hcache, hgiven] at hread
        have hknown := known_written hs.cache.known o.setLen o.setInfo b
        exact Or.inr ((matched_written hs.cache o.setLen o.setInfo b).1 ((readsBack_iff hknown).1 hread))

/-- **Configurations are read as they were given in the tidy runs, and in no others.** -/
theorem read_given_iff (xs : List NvsEv) : Upholds nvsStep Safe blank xs ↔ Orderly nvsStep Tidy blank xs :=
  upholds_iff_orderly (fun _ h => h.safe) (fun _ _ _ hs hx ht => hs.step hx ht)
    (fun _ _ _ hs hx ht => hs.not_safe hx ht) nvsInv_blank

/-- Everything succeeds, but for what is named. -/
def allOk : WriteOut := ⟨true, true, true, true, fun _ => 0⟩

/-- A configuration of one byte is stored. Then one of three bytes is, but its length is not: the next read
writes three bytes into a buffer of one. -/
theorem torn_overflows_buffer :
    ¬ Upholds nvsStep Safe blank [.write allOk [1], .write { allOk with setLen := false } [1, 2, 3]] := by
  rw [upholds_iff_orderly (fun _ h => h.safe) (fun _ _ _ hs hx ht => hs.step hx ht)
    (fun _ _ _ hs hx ht => hs.not_safe hx ht) nvsInv_blank]
  intro h
  obtain ⟨-, h⟩ := h _ rfl
  obtain ⟨⟨-, h⟩, -⟩ := h _ rfl
  have hlen : getLen (written true true [1] fun _ => none) = 1 := getLen_written true true [1] _
  obtain h | h | h | ⟨h, -⟩ := h
  · cases h
  · cases h
  · rw [writeCfg_eq rfl] at h
    exact absurd (hlen.symm.trans h) (by decide)
  · cases h

end W601.Wifi
