import W601.Easyflash.Flash
import W601.Lib.TwoSlots

/-!
# EasyFlash as a store that survives a power failure

The calls, the saves, the starts and the power failures, in any order. The two areas are two slots that are written in turn.

* `step_sim`: every step is one of the two slots.
-/

namespace W601.Easyflash

open Cells CMem

/-- The chip: the partition, and the static variables while the power is on. -/
structure Machine where
  flash : Flash
  ram : Option Ram

inductive Event where
  | call (c : Call)
  | save (outcome : Outcome)
  /-- The power fails between two calls. -/
  | powerFail
  /-- The start, with what happens to the saves of the default environment. -/
  | boot (first second : Outcome)

/-- One step, with the answer of the call. -/
def Machine.step (m : Machine) : Event → Option (Machine × Option Answer)
  | .call c => m.ram.map fun r => (⟨m.flash, some (r.call c).1⟩, some (r.call c).2)
  | .save outcome => m.ram.map fun r =>
    let saved := efSaveEnv outcome m.flash r
    (⟨saved.1, saved.2.map Prod.fst⟩, saved.2.map fun result => .code result.2)
  | .powerFail => some (⟨m.flash, none⟩, none)
  | .boot first second =>
    if m.ram.isSome then none
    else
      let started := efEnvInit first second m.flash
      some (⟨started.1, started.2.map Prod.fst⟩, none)

/-- The default environment. -/
def defaultVars : List Var := [⟨text "boot_times", text "0", by decide, by decide, by decide⟩]

/-- What a save does to the slots. -/
def Outcome.fate : Outcome → TwoSlots.Fate
  | .done => .done
  | .eraseErr _ => .failed true
  | .writeErr _ => .failed false
  | .cut _ => .cut

/-- What is left of a save that does not come to its end does not pass the check. -/
def Outcome.Detected : Outcome → Prop
  | .done => True
  | .eraseErr junk => ∀ b, Torn junk b
  | .writeErr junk => ∀ b, Torn junk b
  | .cut junk => ∀ b, Torn junk b

/-- What a call makes of the map, if it counts as a change. -/
def applyCall (c : Call) (t : Table) : Option Table := if t.touches c then some (t.call c).1 else none

/-- What an area holds. -/
def Slot (f : Flash) (b : Bool) : Option (ℕ × Table) → Prop
  | none => Torn f b
  | some (n, t) => ∃ vars, Image f b n vars ∧ Represents t vars

/-- The cache is the copy that is worked on. -/
structure Live (r : Ram) (q : TwoSlots.Session Table) : Prop where
  working : ∃ vars, Holds r vars ∧ Represents q.working vars
  current : r.curLoadAreaAddr = area q.current
  next : r.nextSaveAreaAddr = area (!q.current)
  count : word r.cache envParamIndexSavedCount = q.count
  changed : r.changed = q.changed

/-- The chip and the two slots. -/
structure Sim (m : Machine) (s : TwoSlots.State Table) : Prop where
  slots : ∀ b, Slot m.flash b (s.slot b)
  session : Option.Rel Live m.ram s.session

section Saving

variable {f g : Flash} {r : Ram} {vars : List Var} {slot : Bool → Option (ℕ × Table)} {q : TwoSlots.Session Table}

/-- A save erases the sector of its area. -/
theorem Holds.eraseSpan (h : Holds r vars) : eraseSpan r.userUsedSize = efEraseMinSize := by
  have hused := h.userUsedSize
  have hroom := h.room
  rw [envParamByteSize] at hused hroom
  rw [envUserSettingSize] at hroom
  rw [Easyflash.eraseSpan, efEraseMinSize]
  omega

theorem Slot.congr {b : Bool} {x : Option (ℕ × Table)} (h : Slot f b x)
    (hsame : ∀ i, Easyflash.area b ≤ i → i < Easyflash.area b + efEraseMinSize → g i = f i) : Slot g b x := by
  cases x with
  | none => exact Torn.congr h hsame
  | some p =>
    obtain ⟨vars, himage, hrep⟩ := h
    exact ⟨vars, himage.congr hsame, hrep⟩

/-- **A save** is one of the slots. -/
theorem save_sim {outcome : Outcome} (hslots : ∀ b, Slot f b (slot b)) (hlive : Live r q) (hcount : q.count + 1 < 2 ^ 32)
    (hdetected : outcome.Detected) : Sim ⟨(efSaveEnv outcome f r).1, (efSaveEnv outcome f r).2.map Prod.fst⟩
      (TwoSlots.save slot q outcome.fate) := by
  obtain ⟨vars, hholds, hrep⟩ := hlive.working
  cases hchanged : r.changed with
  | false =>
    have hq : ¬ q.changed = true := by rw [← hlive.changed, hchanged]; decide
    have hno : (!r.changed) = true := by rw [hchanged]; rfl
    cases outcome with
    | done | eraseErr | writeErr =>
      rw [efSaveEnv, if_pos hno, Outcome.fate, TwoSlots.save, if_neg hq]
      exact ⟨hslots, .some hlive⟩
    | cut =>
      rw [efSaveEnv, if_pos hno, Outcome.fate, TwoSlots.save, if_neg hq]
      exact ⟨hslots, .none⟩
  | true =>
    have hq : q.changed = true := by rw [← hlive.changed, hchanged]
    have hno : ¬ (!r.changed) = true := by rw [hchanged]; decide
    have hcount' : (word r.cache envParamIndexSavedCount + 1) % 2 ^ 32 = q.count + 1 := by
      rw [hlive.count, Nat.mod_eq_of_lt hcount]
    obtain ⟨hseal, hcur, hnext, hword, -, -, -⟩ := seal_holds hholds hlive.next
    have hspan := hholds.eraseSpan
    have hsize : r.userUsedSize ≤ envUserSettingSize := by
      have hroom := hholds.room
      rw [hholds.userUsedSize]
      omega
    have htaken : (r.seal.cache.take r.userUsedSize).length ≤ r.userUsedSize := List.length_take_le _ _
    have hnextq : ∀ changed, Live { r.seal with changed := changed } (q.next changed) := fun changed =>
      ⟨⟨vars, ⟨hseal.size, hseal.area, hseal.ends, hseal.stored, hseal.room, hseal.distinct⟩, hrep⟩, hcur,
        by rw [TwoSlots.Session.next, Bool.not_not]; exact hnext.trans hlive.current,
        hword.trans hcount', rfl⟩
    -- the area that is not written, and the one that is
    have hother : ∀ g : Flash, (∀ i, i < Easyflash.area (!q.current) ∨
        Easyflash.area (!q.current) + Easyflash.eraseSpan r.userUsedSize ≤ i → g i = f i) →
        ∀ x, Slot g (!q.current) x → ∀ b, Slot g b (Function.update slot (!q.current) x b) := by
      intro g hg x hx b
      rcases eq_or_ne b (!q.current) with rfl | hne
      · rw [Function.update_self]
        exact hx
      · rw [Function.update_of_ne hne]
        have hb : (!q.current) = !b := by rw [Bool.eq_not_of_ne hne, Bool.not_not]
        exact (hslots b).congr fun i hi hlt => hg i (hb ▸ area_other hsize hi hlt)
    have hspoiled : ∀ junk : Flash, (∀ b, Torn junk b) →
        Slot (spoil f r.nextSaveAreaAddr r.userUsedSize junk) (!q.current) none := by
      intro junk hjunk
      refine Torn.congr (hjunk _) fun i hi hlt => ?_
      rw [spoil, hlive.next, hspan]
      exact if_pos ⟨hi, hlt⟩
    cases outcome with
    | done =>
      rw [efSaveEnv, if_neg hno, Outcome.fate, TwoSlots.save, if_pos hq]
      refine ⟨hother _ ?_ _ ?_, .some (hnextq false)⟩
      · intro i hi
        rw [hlive.next]
        exact efPortWrite_other htaken hi
      · rw [← hcount']
        exact ⟨vars, image_saved hholds hlive.next, hrep⟩
    | eraseErr junk =>
      rw [efSaveEnv, if_neg hno, Outcome.fate, TwoSlots.save, if_pos hq]
      refine ⟨hother _ ?_ _ (hspoiled junk hdetected), .some ?_⟩
      · intro i hi
        rw [hlive.next]
        exact spoil_other hi
      · have hsame : r.seal = { r.seal with changed := true } := by rw [← hchanged]; rfl
        rw [hsame]
        exact hnextq true
    | writeErr junk =>
      rw [efSaveEnv, if_neg hno, Outcome.fate, TwoSlots.save, if_pos hq]
      refine ⟨hother _ ?_ _ (hspoiled junk hdetected), .some (hnextq false)⟩
      intro i hi
      rw [hlive.next]
      exact spoil_other hi
    | cut junk =>
      rw [efSaveEnv, if_neg hno, Outcome.fate, TwoSlots.save, if_pos hq]
      refine ⟨hother _ ?_ _ (hspoiled junk hdetected), .none⟩
      intro i hi
      rw [hlive.next]
      exact spoil_other hi

end Saving

/-! ## The start -/

section Start

variable {f : Flash} {r : Ram} {b : Bool} {slot : Bool → Option (ℕ × Table)} {q : TwoSlots.Session Table}

/-- The default environment in a cache, whatever was in it before. -/
theorem setDefault_holds (hsize : r.cache.length = envUserSettingSize) (harea : r.curLoadAreaAddr < 2 ^ 31) :
    Holds r.setDefault defaultVars ∧ word r.setDefault.cache envParamIndexSavedCount = 0 ∧
      r.setDefault = { r with cache := r.setDefault.cache, changed := true } := by
  have hlen : ∀ n, (setWord r.cache envParamIndexEndAddr n).length = envUserSettingSize := fun n => by
    rw [length_setWord (by rw [hsize]; decide), hsize]
  set c := setWord (setWord r.cache envParamIndexEndAddr r.dataAddr) envParamIndexSavedCount 0 with hc
  have hlenc : c.length = envUserSettingSize := by rw [hc, length_setWord (by rw [hlen]; decide), hlen]
  have hdata : r.dataAddr < 2 ^ 32 := by
    rw [Ram.dataAddr, Ram.systemAddr, envParamByteSize]
    omega
  have hempty : Holds { r with cache := c } [] := by
    refine ⟨hlenc, harea, ?_, rfl, by decide, List.nodup_nil⟩
    calc word c envParamIndexEndAddr
        = word (setWord r.cache envParamIndexEndAddr r.dataAddr) envParamIndexEndAddr :=
          word_setWord_ne (by decide) (by rw [hlen]; decide)
      _ = r.dataAddr := word_setWord (by rw [hsize]; decide) hdata
  obtain ⟨v, hv⟩ : ∃ v, defaultVars = [v] := ⟨_, rfl⟩
  have hcreate : r.setDefault = (createEnv v.name v.value { r with cache := c }).1 := by
    obtain rfl := List.singleton_inj.1 hv
    rfl
  have hfind : findEnv v.name { r with cache := c } = none :=
    findEnv_none hempty v.nulFree.1 fun w hw => absurd hw List.not_mem_nil
  have hfits : envParamByteSize + (bytesOf []).length + cost v.name v.value < envUserSettingSize := by
    obtain rfl := List.singleton_inj.1 hv
    decide
  obtain ⟨r', hwrite, hholds, hedits⟩ := writeEnv_fits hempty List.not_mem_nil hfits
  have hset : r.setDefault = r' := by rw [hcreate, createEnv, if_neg v.named, if_neg v.plain, hfind, hwrite]
  rw [hset, hv]
  refine ⟨hholds, ?_, ?_⟩
  · rw [hedits.header _ (by decide) (by decide)]
    exact word_setWord (by rw [hlen]; decide) (by decide)
  · have hframe := hedits.frame
    rw [Bool.or_true] at hframe
    exact hframe

/-- What the check leaves alone. -/
theorem checkArea_frame (hsize : r.cache.length = envUserSettingSize) (f : Flash) (b : Bool) :
    (checkArea f b r).1.cache.length = envUserSettingSize ∧ (checkArea f b r).1.changed = r.changed := by
  rw [checkArea]
  simp only
  split_ifs with hbad
  · exact ⟨hsize, rfl⟩
  · refine ⟨?_, rfl⟩
    rw [overwrite_length (by rw [length_efPortRead, hsize]; omega), hsize]

theorem init_represents : Represents (tableOf defaultVars) defaultVars := represents_tableOf (List.nodup_singleton _)

theorem checkArea_valid {n : ℕ} {vars : List Var} (himage : Image f b n vars) (hsize : r.cache.length = envUserSettingSize) :
    (checkArea f b r).2 = true := by
  obtain ⟨r', hcheck, -⟩ := checkArea_image himage r hsize
  rw [hcheck]

theorem zero_size : Ram.zero.cache.length = envUserSettingSize := List.length_replicate

section Load

variable {n : ℕ} {vars : List Var}

/-- The first area is loaded when the other one is not valid, or has a smaller count. -/
theorem load_first (himage : Image f false n vars)
    (hother : (checkArea f true (checkArea f false Ram.zero).1).2 = true → firstIsBigger f = true) (first second : Outcome) :
    ∃ r, efLoadEnv first second f Ram.zero = (f, some (r, .noErr)) ∧ Holds r vars ∧ r.curLoadAreaAddr = area false ∧
      r.nextSaveAreaAddr = area true ∧ word r.cache envParamIndexSavedCount = n ∧ r.changed = false := by
  obtain ⟨hsize₁, hchanged₁⟩ := checkArea_frame zero_size f false
  obtain ⟨hsize₂, hchanged₂⟩ := checkArea_frame hsize₁ f true
  -- it is read once more
  obtain ⟨r', -, hholds, hcount, hframe, hcache⟩ := checkArea_image himage _ hsize₂
  have harea : r'.curLoadAreaAddr = area false := by rw [hframe]
  have htake : (if ((checkArea f false Ram.zero).2 && (checkArea f true (checkArea f false Ram.zero).1).2) = true then
      firstIsBigger f else (checkArea f false Ram.zero).2) = true := by
    rw [checkArea_valid himage zero_size, Bool.true_and]
    split_ifs with hvalid
    · exact hother hvalid
    · rfl
  rw [efLoadEnv]
  simp only [htake, if_true]
  rw [← hcache]
  exact ⟨_, rfl, hholds.congr harea.symm rfl hholds.size, rfl, rfl, hcount, hchanged₂.trans hchanged₁⟩

/-- The second area is loaded when the other one is not valid, or has a smaller count. -/
theorem load_second (himage : Image f true n vars)
    (hother : (checkArea f false Ram.zero).2 = true → firstIsBigger f = false) (first second : Outcome) :
    ∃ r, efLoadEnv first second f Ram.zero = (f, some (r, .noErr)) ∧ Holds r vars ∧ r.curLoadAreaAddr = area true ∧
      r.nextSaveAreaAddr = area false ∧ word r.cache envParamIndexSavedCount = n ∧ r.changed = false := by
  obtain ⟨hsize₁, hchanged₁⟩ := checkArea_frame zero_size f false
  obtain ⟨hsize₂, hchanged₂⟩ := checkArea_frame hsize₁ f true
  obtain ⟨r', hcheck, hholds, hcount, hframe, -⟩ := checkArea_image himage _ hsize₁
  have hr' : (checkArea f true (checkArea f false Ram.zero).1).1 = r' := by rw [hcheck]
  have harea : r'.curLoadAreaAddr = area true := by rw [hframe]
  have hchanged : r'.changed = false := by rw [← hr', hchanged₂, hchanged₁]; rfl
  have hskip : ¬ (if ((checkArea f false Ram.zero).2 && (checkArea f true (checkArea f false Ram.zero).1).2) = true then
      firstIsBigger f else (checkArea f false Ram.zero).2) = true := by
    rw [checkArea_valid himage hsize₁, Bool.and_true]
    split_ifs with hvalid
    · rw [hother hvalid]
      decide
    · exact hvalid
  rw [efLoadEnv]
  simp only [hskip, Bool.false_eq_true, if_false]
  rw [hcheck]
  exact ⟨_, rfl, hholds.congr rfl rfl hholds.size, harea, rfl, hcount, hchanged⟩

end Load

/-- **A start with a valid area** loads what the slots load. -/
theorem load_sim (hslots : ∀ b, Slot f b (slot b)) (hodd : ∀ n t, slot false = some (n, t) → n % 2 = 1)
    (hload : TwoSlots.load slot = some q) (first second : Outcome) :
    ∃ r, efLoadEnv first second f Ram.zero = (f, some (r, .noErr)) ∧ Live r q := by
  obtain ⟨hsize₁, -⟩ := checkArea_frame zero_size f false
  have hfirst := hslots false
  have hsecond := hslots true
  rw [TwoSlots.load] at hload
  cases hf : slot false with
  | none =>
    rw [hf] at hfirst hload
    have hbad : (checkArea f false Ram.zero).2 = false := hfirst _ zero_size
    cases ht : slot true with
    | none =>
      rw [ht] at hload
      cases hload
    | some p =>
      rw [ht] at hsecond hload
      obtain rfl := Option.some.inj hload
      obtain ⟨vars, himage, hrep⟩ := hsecond
      obtain ⟨r, hr, hholds, hcur, hnext, hcount, hchanged⟩ :=
        load_second himage (fun hvalid => absurd (hbad.symm.trans hvalid) (by decide)) first second
      exact ⟨r, hr, ⟨vars, hholds, hrep⟩, hcur, hnext, hcount, hchanged⟩
  | some p =>
    rw [hf] at hfirst hload
    obtain ⟨vars, himage, hrep⟩ := hfirst
    cases ht : slot true with
    | none =>
      rw [ht] at hsecond hload
      obtain rfl := Option.some.inj hload
      have hbad : (checkArea f true (checkArea f false Ram.zero).1).2 = false := hsecond _ hsize₁
      obtain ⟨r, hr, hholds, hcur, hnext, hcount, hchanged⟩ :=
        load_first himage (fun hvalid => absurd (hbad.symm.trans hvalid) (by decide)) first second
      exact ⟨r, hr, ⟨vars, hholds, hrep⟩, hcur, hnext, hcount, hchanged⟩
    | some p' =>
      rw [ht] at hsecond hload
      obtain ⟨vars', himage', hrep'⟩ := hsecond
      -- the count of the first area is odd, and so not 0
      have hbigger : firstIsBigger f = decide (p.1 > p'.1) := by
        have hne : p.1 ≠ 0 := by
          have hp := hodd p.1 p.2 hf
          omega
        rw [firstIsBigger, storedCount_image himage, storedCount_image himage', decide_eq_false hne, Bool.false_and,
          Bool.or_false]
      simp only at hload
      by_cases hlt : p.1 > p'.1
      · rw [if_pos hlt] at hload
        obtain rfl := Option.some.inj hload
        obtain ⟨r, hr, hholds, hcur, hnext, hcount, hchanged⟩ :=
          load_first himage (fun _ => hbigger.trans (decide_eq_true hlt)) first second
        exact ⟨r, hr, ⟨vars, hholds, hrep⟩, hcur, hnext, hcount, hchanged⟩
      · rw [if_neg hlt] at hload
        obtain rfl := Option.some.inj hload
        obtain ⟨r, hr, hholds, hcur, hnext, hcount, hchanged⟩ :=
          load_second himage' (fun _ => hbigger.trans (decide_eq_false hlt)) first second
        exact ⟨r, hr, ⟨vars', hholds, hrep'⟩, hcur, hnext, hcount, hchanged⟩

/-- **A start without a valid area** saves the default environment. -/
theorem reset_sim {first second : Outcome} (hslots : ∀ b, Slot f b none) (hfirst : first.Detected)
    (hsecond : second.Detected) : Sim ⟨(efLoadEnv first second f Ram.zero).1,
      (efLoadEnv first second f Ram.zero).2.map Prod.fst⟩
      (TwoSlots.reset (tableOf defaultVars) (fun _ => none) first.fate second.fate) := by
  obtain ⟨hsize₁, -⟩ := checkArea_frame zero_size f false
  obtain ⟨hsize₂, -⟩ := checkArea_frame hsize₁ f true
  have hload : efLoadEnv first second f Ram.zero = efEnvSetDefault first second f
      { (checkArea f true (checkArea f false Ram.zero).1).1 with
        curLoadAreaAddr := area true
        nextSaveAreaAddr := area false } := by
    have hbad : (checkArea f false Ram.zero).2 = false := hslots false _ zero_size
    have hbad' : (checkArea f true (checkArea f false Ram.zero).1).2 = false := hslots true _ hsize₁
    rw [efLoadEnv]
    simp only [hbad, hbad']
    rfl
  rw [hload]
  set r : Ram := { (checkArea f true (checkArea f false Ram.zero).1).1 with
    curLoadAreaAddr := area true
    nextSaveAreaAddr := area false } with hr
  obtain ⟨hholds, hcount, hframe⟩ := setDefault_holds (r := r) hsize₂ (area_lt true)
  have hlive : Live r.setDefault (TwoSlots.fresh (tableOf defaultVars)) :=
    ⟨⟨_, hholds, init_represents⟩, by rw [hframe]; rfl, by rw [hframe]; rfl, hcount, by rw [hframe]; rfl⟩
  have hsim := save_sim hslots hlive (by decide) hfirst
  rw [efEnvSetDefault]
  cases first with
  | done =>
    -- the second save
    have hchanged : r.setDefault.changed = true := by rw [hframe]
    have hsave : (efSaveEnv .done f r.setDefault).2 = some ({ r.setDefault.seal with changed := false }, .noErr) := by
      rw [efSaveEnv, if_neg (by rw [hchanged]; decide)]
    obtain ⟨hslots', hsession⟩ := hsim
    rw [hsave] at hsession
    have hpair : efSaveEnv .done f r.setDefault =
        ((efSaveEnv .done f r.setDefault).1, some ({ r.setDefault.seal with changed := false }, .noErr)) := by
      rw [← hsave]
    rw [hpair]
    have hlive' : Live { r.setDefault.seal with changed := true }
        ((TwoSlots.fresh (tableOf defaultVars)).next true) := by
      cases hsession with
      | some h =>
        obtain ⟨⟨vars, hholds', hrep⟩, hcur, hnext, hcount', -⟩ := h
        exact ⟨⟨vars, hholds'.congr rfl rfl hholds'.size, hrep⟩, hcur, hnext, hcount', rfl⟩
    exact save_sim hslots' hlive' (by decide) hsecond
  | eraseErr junk | writeErr junk | cut junk =>
    have hchanged : r.setDefault.changed = true := by rw [hframe]
    have hno : ¬ (!r.setDefault.changed) = true := by rw [hchanged]; decide
    rw [efSaveEnv, if_neg hno] at hsim ⊢
    exact hsim

end Start

/-! ## Steps -/

/-- What a step is to the slots. Before the start has come to its end the calls do nothing. -/
def Event.slots (e : Event) (initOk : Bool) : TwoSlots.Event Call :=
  match e with
  | .call c => if initOk then .work c else .work (.get ⟨[], List.not_mem_nil⟩)
  | .save outcome => .save outcome.fate
  | .powerFail => .cut
  | .boot first second => .boot first.fate second.fate

def Event.Detected : Event → Prop
  | .save outcome => outcome.Detected
  | .boot first second => first.Detected ∧ second.Detected
  | _ => True

/-- `init_ok`. -/
def Machine.initOk (m : Machine) : Bool := m.ram.elim true Ram.initOk

section Step

variable {m m' : Machine} {s : TwoSlots.State Table} {e : Event} {answer : Option Answer}

/-- A call, whether or not the start has come to its end. -/
theorem call_sim {r : Ram} {q : TwoSlots.Session Table} (hlive : Live r q) (c : Call) :
    Live (r.call c).1 (q.work applyCall (if r.initOk then c else .get ⟨[], List.not_mem_nil⟩)) := by
  obtain ⟨vars, hholds, hrep⟩ := hlive.working
  cases hinit : r.initOk with
  | false =>
    have hcall : (r.call c).1 = r := by
      cases c with
      | get key => rfl
      | set key value => simp [Ram.call, efSetEnv, hinit]
      | del key => simp [Ram.call, efDelEnv, hinit]
    rw [hcall]
    exact hlive
  | true =>
    obtain ⟨r', vars', hcall, hrefines, hedits⟩ := Refines.call ⟨hholds, hrep, hinit⟩ c
    have hcount : word r'.cache envParamIndexSavedCount = q.count := by
      rw [hedits.header _ (by decide) (by decide), hlive.count]
    have hcur : r'.curLoadAreaAddr = area q.current := by rw [hedits.frame]; exact hlive.current
    have hnext : r'.nextSaveAreaAddr = area (!q.current) := by rw [hedits.frame]; exact hlive.next
    have hchanged : r'.changed = (q.changed || q.working.touches c) := by
      rw [hedits.frame, ← hlive.changed]
    rw [hcall, if_pos rfl, TwoSlots.Session.work, applyCall]
    cases htouch : q.working.touches c with
    | true =>
      rw [htouch, Bool.or_true] at hchanged
      exact ⟨⟨vars', hrefines.holds, hrefines.represents⟩, hcur, hnext, hcount, hchanged⟩
    | false =>
      rw [htouch, Bool.or_false] at hchanged
      have hrep' := hrefines.represents
      rw [q.working.call_untouched htouch] at hrep'
      exact ⟨⟨vars', hrefines.holds, hrep'⟩, hcur, hnext, hcount, hchanged⟩

/-- The mark that the start has come to its end. -/
theorem init_sim {first second : Outcome} {f : Flash} {s : TwoSlots.State Table}
    (h : Sim ⟨(efLoadEnv first second f Ram.zero).1, (efLoadEnv first second f Ram.zero).2.map Prod.fst⟩ s) :
    Sim ⟨(efEnvInit first second f).1, (efEnvInit first second f).2.map Prod.fst⟩ s := by
  rw [efEnvInit]
  generalize efLoadEnv first second f Ram.zero = loaded at h ⊢
  obtain ⟨f', result⟩ := loaded
  cases result with
  | none => exact h
  | some p =>
    obtain ⟨r, code⟩ := p
    cases code with
    | noErr =>
      refine ⟨h.slots, ?_⟩
      have hsession := h.session
      cases hs : s.session with
      | none =>
        rw [hs] at hsession
        cases hsession
      | some q =>
        rw [hs] at hsession
        cases hsession with
        | some hlive =>
          obtain ⟨⟨vars, hholds, hrep⟩, hcur, hnext, hcount, hchanged⟩ := hlive
          exact .some ⟨⟨vars, hholds.congr rfl rfl hholds.size, hrep⟩, hcur, hnext, hcount, hchanged⟩
    | _ => exact h

/-- **Every step is one of the two slots**, whatever the flash reports, as long as the count does not overflow. -/
theorem step_sim {bound : ℕ} (hsim : Sim m s) (hodd : TwoSlots.Alternate s) (hbound : TwoSlots.Bounded s bound)
    (hlt : bound + 2 < 2 ^ 32) (hdetected : e.Detected) (hs : m.step e = some (m', answer)) :
    ∃ s', TwoSlots.step applyCall (tableOf defaultVars) s (e.slots m.initOk) = some s' ∧ Sim m' s' := by
  obtain ⟨f, ram⟩ := m
  obtain ⟨slot, session⟩ := s
  obtain ⟨hslots, hsession⟩ := hsim
  cases e with
  | powerFail =>
    cases hs
    refine ⟨⟨slot, none⟩, ?_, hslots, .none⟩
    cases session <;> rfl
  | call c =>
    cases hsession with
    | none => cases hs
    | @some r q hlive =>
      cases hs
      refine ⟨⟨slot, some (q.work applyCall (if r.initOk then c else .get ⟨[], List.not_mem_nil⟩))⟩, ?_, hslots,
        .some (call_sim hlive c)⟩
      cases hinit : r.initOk <;> simp [Event.slots, Machine.initOk, hinit, TwoSlots.step]
  | save outcome =>
    cases hsession with
    | none => cases hs
    | @some r q hlive =>
      cases hs
      have hcount : q.count ≤ bound := hbound.session q rfl
      exact ⟨_, rfl, save_sim hslots hlive (by omega) hdetected⟩
  | boot first second =>
    cases hsession with
    | some hlive => cases hs
    | none =>
      cases hs
      rw [Event.slots, TwoSlots.step]
      cases hload : TwoSlots.load slot with
      | some q =>
        obtain ⟨r, hr, hlive⟩ := load_sim hslots (fun n t ht => (hodd.slots false n t ht).2 rfl) hload first second
        refine ⟨⟨slot, some q⟩, rfl, init_sim ?_⟩
        rw [hr]
        exact ⟨hslots, .some hlive⟩
      | none =>
        have hnone : slot = fun _ => none := funext (TwoSlots.load_eq_none hload)
        subst hnone
        exact ⟨_, rfl, init_sim (reset_sim hslots hdetected.1 hdetected.2)⟩

end Step

end W601.Easyflash
