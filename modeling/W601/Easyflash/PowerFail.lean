import W601.Easyflash.Store

/-!
# What a power failure leaves

* `answers_durable`: **without a reported failure** the environment is a map that is saved, wherever the power fails.
* `counts_alternate`: the first area has the odd counts only, in every run.
* `overflow_loads_old`: what that makes of the overflow of the count.
* `failed_erase_loses`: a save that fails makes the next one write over what is left.
-/

namespace W601.Easyflash

/-- Some steps, with their answers. -/
def Machine.run : Machine → List Event → Option (Machine × List (Option Answer))
  | m, [] => some (m, [])
  | m, e :: es => do
    let (m, answer) ← m.step e
    let (m, answers) ← m.run es
    return (m, answer :: answers)

/-- A map that is saved, and a copy that is worked on. -/
abbrev DurableMap : Type := TwoSlots.Durable Table

/-- The answer of a map to a step. -/
def DurableMap.answer (d : DurableMap) : Event → Option Answer
  | .call c => d.working.map fun t => (t.call c).2
  | .save .done => d.working.map fun _ => .code .noErr
  | _ => none

/-- What a step is to the map. -/
def DurableMap.step (d : DurableMap) (e : Event) : Option DurableMap :=
  TwoSlots.Durable.step applyCall (tableOf defaultVars) d (e.slots true)

def DurableMap.run : DurableMap → List Event → Option (DurableMap × List (Option Answer))
  | d, [] => some (d, [])
  | d, e :: es => do
    let d' ← d.step e
    let (d'', answers) ← DurableMap.run d' es
    return (d'', d.answer e :: answers)

/-- A call goes on with the copy. -/
theorem DurableMap.step_call (d : Option Table) (t : Table) (c : Call) :
    DurableMap.step ⟨d, some t⟩ (.call c) = some ⟨d, some (t.call c).1⟩ := by
  have happly : (applyCall c t).getD t = (t.call c).1 := by
    rw [applyCall]
    split_ifs with htouches
    · rfl
    · exact (t.call_untouched (by simpa using htouches)).symm
  rw [← happly]
  rfl

/-- No failure is reported. -/
def Event.Quiet (e : Event) : Prop := (e.slots true).Quiet

/-- There is nothing yet, and the power is off. -/
def Machine.blank (f : Flash) : Machine := ⟨f, none⟩

/-- The chip goes along with the two slots, and no count is above the bound. -/
structure Follows (m : Machine) (s : TwoSlots.State Table) (bound : ℕ) : Prop where
  sim : Sim m s
  odd : TwoSlots.Alternate s
  bounded : TwoSlots.Bounded s bound

section Quiet

variable {m m' : Machine} {s : TwoSlots.State Table} {d : DurableMap} {e : Event} {answer : Option Answer} {bound : ℕ}

theorem follows_blank {f : Flash} (h : ∀ b, Torn f b) : Follows (Machine.blank f) ⟨fun _ => none, none⟩ 0 := by
  have hnumbers : ∀ {P : Bool → ℕ → Prop}, TwoSlots.Numbers P (⟨fun _ => none, none⟩ : TwoSlots.State Table) :=
    ⟨fun _ _ _ h => absurd h (by simp), fun _ h => absurd h (by simp)⟩
  exact ⟨⟨h, .none⟩, hnumbers, hnumbers⟩

theorem Follows.step (h : Follows m s bound) (hlt : bound + 2 < 2 ^ 32) (hdetected : e.Detected)
    (hs : m.step e = some (m', answer)) :
    ∃ s', TwoSlots.step applyCall (tableOf defaultVars) s (e.slots m.initOk) = some s' ∧ Follows m' s' (bound + 2) := by
  obtain ⟨s', hs', hsim⟩ := step_sim h.sim h.odd h.bounded hlt hdetected hs
  exact ⟨s', hs', hsim, TwoSlots.step_alternate h.odd hs', TwoSlots.step_bounded h.bounded hs'⟩

theorem Follows.mono {bound' : ℕ} (h : Follows m s bound) (hle : bound ≤ bound') : Follows m s bound' :=
  ⟨h.sim, h.odd, fun b n x hb => (h.bounded.slots b n x hb).trans hle, fun q hq => (h.bounded.session q hq).trans hle⟩

/-- The cache, and what is found in it. -/
theorem Follows.ram (h : Follows m s bound) (hkeeps : TwoSlots.Keeps s d) (hok : m.initOk = true) :
    Option.Rel (fun r t => ∀ key : CString, efGetEnv key.1 r = t.find key.1) m.ram d.working := by
  obtain ⟨f, ram⟩ := m
  obtain ⟨⟨-, hsession⟩, -, -⟩ := h
  cases hkeeps with
  | blank | off =>
    cases hsession
    exact .none
  | on =>
    cases hsession with
    | some hlive =>
      obtain ⟨vars, hholds, hrep⟩ := hlive.working
      exact .some fun key => Refines.get ⟨hholds, hrep, hok⟩ key.2

/-- The first step of a run. -/
theorem run_cons {es : List Event} {answers : List (Option Answer)} (h : m.run (e :: es) = some (m', answers)) :
    ∃ m₁ answer rest, m.step e = some (m₁, answer) ∧ m₁.run es = some (m', rest) ∧ answers = answer :: rest := by
  obtain ⟨⟨m₁, answer⟩, hstep, h⟩ := Option.bind_eq_some_iff.1 h
  obtain ⟨⟨m₂, rest⟩, hrest, hend⟩ := Option.bind_eq_some_iff.1 h
  cases hend
  exact ⟨m₁, answer, rest, hstep, hrest, rfl⟩

/-- A save that reports no failure. -/
theorem efSaveEnv_quiet {outcome : Outcome} (hquiet : outcome.fate.Quiet) (f : Flash) (r : Ram) :
    (efSaveEnv outcome f r).2 = none ∨ ∃ r', (efSaveEnv outcome f r).2 = some (r', .noErr) ∧ r'.initOk = r.initOk ∧
      outcome = .done := by
  cases outcome with
  | eraseErr | writeErr => exact hquiet.elim
  | cut junk =>
    rw [efSaveEnv]
    split_ifs
    · exact .inl rfl
    · exact .inl rfl
  | done =>
    rw [efSaveEnv]
    split_ifs
    · exact .inr ⟨r, rfl, rfl, rfl⟩
    · exact .inr ⟨_, rfl, rfl, rfl⟩

/-- A start loads an area, or saves the default environment. -/
theorem efLoadEnv_cases (first second : Outcome) (f : Flash) (r : Ram) :
    (∃ r', efLoadEnv first second f r = (f, some (r', .noErr))) ∨
      ∃ r', efLoadEnv first second f r = efEnvSetDefault first second f r' := by
  rw [efLoadEnv]
  simp only
  split_ifs
  · exact .inl ⟨_, rfl⟩
  · exact .inl ⟨_, rfl⟩
  · exact .inr ⟨_, rfl⟩
  · exact .inl ⟨_, rfl⟩
  · exact .inl ⟨_, rfl⟩
  · exact .inr ⟨_, rfl⟩

/-- A start that reports no failure. -/
theorem efEnvInit_quiet {first second : Outcome} (hfirst : first.fate.Quiet) (hsecond : second.fate.Quiet) (f : Flash) :
    ∀ p ∈ (efEnvInit first second f).2, p.1.initOk = true := by
  have hload : (efLoadEnv first second f Ram.zero).2 = none ∨
      ∃ r, (efLoadEnv first second f Ram.zero).2 = some (r, .noErr) := by
    rcases efLoadEnv_cases first second f Ram.zero with ⟨r, hr⟩ | ⟨r, hr⟩
    · exact .inr ⟨r, by rw [hr]⟩
    · rw [hr, efEnvSetDefault]
      have hsave := efSaveEnv_quiet hfirst f r.setDefault
      generalize efSaveEnv first f r.setDefault = saved at hsave
      obtain ⟨f', result⟩ := saved
      rcases hsave with hnone | ⟨r', hsome, -, -⟩
      · obtain rfl : result = none := hnone
        exact .inl rfl
      · obtain rfl : result = some (r', .noErr) := hsome
        rcases efSaveEnv_quiet hsecond f' { r' with changed := true } with hnone' | ⟨r'', hsome', -, -⟩
        · exact .inl hnone'
        · exact .inr ⟨r'', hsome'⟩
  intro p hp
  rw [efEnvInit] at hp
  generalize efLoadEnv first second f Ram.zero = loaded at hload hp
  obtain ⟨f', result⟩ := loaded
  rcases hload with hnone | ⟨r, hsome⟩
  · obtain rfl : result = none := hnone
    cases hp
  · obtain rfl : result = some (r, .noErr) := hsome
    obtain rfl := Option.mem_some_iff.1 hp
    rfl

/-- The start has come to its end where the power is on. -/
theorem step_initOk (hok : m.initOk = true) (hsim : Sim m s) (hquiet : e.Quiet) (hs : m.step e = some (m', answer)) :
    m'.initOk = true := by
  obtain ⟨f, ram⟩ := m
  obtain ⟨slot, session⟩ := s
  cases e with
  | powerFail =>
    cases hs
    rfl
  | call c =>
    cases ram with
    | none => cases hs
    | some r =>
      cases hs
      obtain ⟨-, hsession⟩ := hsim
      cases hsession with
      | some hlive =>
        obtain ⟨vars, hholds, hrep⟩ := hlive.working
        obtain ⟨r', vars', hcall, hrefines, -⟩ := Refines.call ⟨hholds, hrep, hok⟩ c
        rw [hcall]
        exact hrefines.initOk
  | save outcome =>
    cases ram with
    | none => cases hs
    | some r =>
      cases hs
      rcases efSaveEnv_quiet hquiet f r with hnone | ⟨r', hsome, hinit, -⟩
      · rw [hnone]
        rfl
      · rw [hsome]
        exact hinit.trans hok
  | boot first second =>
    cases ram with
    | some r => cases hs
    | none =>
      cases hs
      have hinit := efEnvInit_quiet hquiet.1 hquiet.2 f
      cases hresult : (efEnvInit first second f).2 with
      | none => rfl
      | some p => exact hinit p hresult

/-- The answer is that of the map. -/
theorem answer_durable (hok : m.initOk = true) (hsim : Sim m s) (hkeeps : TwoSlots.Keeps s d) (hquiet : e.Quiet)
    (hs : m.step e = some (m', answer)) : answer = d.answer e := by
  obtain ⟨f, ram⟩ := m
  cases e with
  | powerFail =>
    cases hs
    rfl
  | boot first second =>
    cases ram with
    | some r => cases hs
    | none =>
      cases hs
      rfl
  | call c =>
    cases ram with
    | none => cases hs
    | some r =>
      cases hs
      obtain ⟨-, hsession⟩ := hsim
      cases hkeeps with
      | blank | off => cases hsession
      | on hat hless hsame =>
        cases hsession with
        | some hlive =>
          obtain ⟨vars, hholds, hrep⟩ := hlive.working
          obtain ⟨r', vars', hcall, -⟩ := Refines.call ⟨hholds, hrep, hok⟩ c
          rw [hcall]
          rfl
  | save outcome =>
    cases ram with
    | none => cases hs
    | some r =>
      cases hs
      obtain ⟨-, hsession⟩ := hsim
      cases hkeeps with
      | blank | off => cases hsession
      | on hat hless hsame =>
        cases outcome with
        | eraseErr | writeErr => exact hquiet.elim
        | done =>
          rw [efSaveEnv]
          split_ifs
          · rfl
          · rfl
        | cut junk =>
          rw [efSaveEnv]
          split_ifs
          · rfl
          · rfl

/-- **Without a reported failure** a run on the chip answers as one on the map. -/
theorem run_durable : ∀ {es : List Event} {m m' : Machine} {s : TwoSlots.State Table} {d : DurableMap} {bound : ℕ}
    {answers : List (Option Answer)}, m.initOk = true → Follows m s bound → TwoSlots.Keeps s d →
    bound + 2 * es.length < 2 ^ 32 → (∀ e ∈ es, e.Quiet) → (∀ e ∈ es, e.Detected) →
    m.run es = some (m', answers) → ∃ s' d', d.run es = some (d', answers) ∧ m'.initOk = true ∧
      Follows m' s' (bound + 2 * es.length) ∧ TwoSlots.Keeps s' d' := by
  intro es
  induction es with
  | nil =>
    intro m m' s d bound answers hok hfollows hkeeps _ _ _ hrun
    cases hrun
    exact ⟨s, d, rfl, hok, hfollows, hkeeps⟩
  | cons e es ih =>
    intro m m' s d bound answers hok hfollows hkeeps hlt hquiet hdetected hrun
    rw [List.length_cons] at hlt ⊢
    obtain ⟨m₁, answer, rest, hstep, hrest, rfl⟩ := run_cons hrun
    have hq := hquiet e List.mem_cons_self
    obtain ⟨s₁, hs₁, hfollows₁⟩ := hfollows.step (by omega) (hdetected e List.mem_cons_self) hstep
    rw [hok] at hs₁
    obtain ⟨d₁, hd₁, hkeeps₁⟩ := TwoSlots.step_durable hkeeps hq hs₁
    obtain ⟨s', d', hd', hok', hfollows', hkeeps'⟩ := ih (step_initOk hok hfollows.sim hq hstep) hfollows₁ hkeeps₁ (by omega)
      (fun x hx => hquiet x (List.mem_cons_of_mem _ hx)) (fun x hx => hdetected x (List.mem_cons_of_mem _ hx)) hrest
    have hsum : bound + 2 + 2 * es.length = bound + 2 * (es.length + 1) := by omega
    refine ⟨s', d', ?_, hok', hsum ▸ hfollows', hkeeps'⟩
    have hfirst := answer_durable hok hfollows.sim hkeeps hq hstep
    rw [DurableMap.run, DurableMap.step, hd₁]
    simp only [Option.bind_eq_bind, Option.bind_some, hd', ← hfirst]
    rfl

end Quiet

/-- A sector that has been erased. -/
theorem torn_erased (b : Bool) : Torn (fun _ => 0xFF) b := by
  intro r _
  have hend : storedEnd (fun _ => 0xFF) b = 0xFFFFFFFF := by
    rw [storedEnd, efPortRead, Cells.first, List.map_const', List.length_range]
    decide
  rw [checkArea, hend]
  simp

section Runs

variable {f : Flash} {m m' : Machine} {es : List Event} {answers : List (Option Answer)}

/-- **Every run is one of the two slots.** -/
theorem Follows.run : ∀ {es : List Event} {m m' : Machine} {s : TwoSlots.State Table} {bound : ℕ}
    {answers : List (Option Answer)}, Follows m s bound → bound + 2 * es.length < 2 ^ 32 → (∀ e ∈ es, e.Detected) →
    m.run es = some (m', answers) → ∃ s', Follows m' s' (bound + 2 * es.length) := by
  intro es
  induction es with
  | nil =>
    intro m m' s bound answers hfollows _ _ hrun
    cases hrun
    exact ⟨s, hfollows⟩
  | cons e es ih =>
    intro m m' s bound answers hfollows hlt hdetected hrun
    rw [List.length_cons] at hlt ⊢
    obtain ⟨m₁, answer, rest, hstep, hrest, rfl⟩ := run_cons hrun
    obtain ⟨s₁, -, hfollows₁⟩ := hfollows.step (by omega) (hdetected e List.mem_cons_self) hstep
    obtain ⟨s', hfollows'⟩ := ih hfollows₁ (by omega) (fun x hx => hdetected x (List.mem_cons_of_mem _ hx)) hrest
    have hsum : bound + 2 + 2 * es.length = bound + 2 * (es.length + 1) := by omega
    exact ⟨s', hsum ▸ hfollows'⟩

/-- What an area holds is in its slot. -/
theorem Slot.image {b : Bool} {n : ℕ} {vars : List Var} {x : Option (ℕ × Table)} (h : Slot f b x) (himage : Image f b n vars) :
    ∃ t, x = some (n, t) := by
  cases x with
  | none => exact absurd ((h _ zero_size).symm.trans (checkArea_valid himage zero_size)) (by decide)
  | some p =>
    obtain ⟨vars', himage', -⟩ := h
    have hcount := (storedCount_image himage').symm.trans (storedCount_image himage)
    exact ⟨p.2, by rw [← hcount]⟩

/-- **The overflow of the count**: the biggest count is odd, so that it stands in the first area, and the test for the
overflow looks for it in the second one. The start behind the save loads the environment that was there before. -/
theorem overflow_loads_old {r : Ram} {old vars : List Var} (hholds : Holds r vars) (hchanged : r.changed = true)
    (hnext : r.nextSaveAreaAddr = area true) (hcount : word r.cache envParamIndexSavedCount = 0xFFFFFFFF)
    (himage : Image f false 0xFFFFFFFF old) (first second : Outcome) : (efSaveEnv .done f r).2.map Prod.snd = some .noErr ∧
      Image (efSaveEnv .done f r).1 true 0 vars ∧
      ∃ r', efEnvInit first second (efSaveEnv .done f r).1 = ((efSaveEnv .done f r).1, some (r', .noErr)) ∧ Holds r' old := by
  have hno : ¬ (!r.changed) = true := by rw [hchanged]; decide
  have hsaved := image_saved (f := f) hholds hnext
  rw [hcount] at hsaved
  have hspan := hholds.eraseSpan
  have hkept : Image (efSaveEnv .done f r).1 false 0xFFFFFFFF old := by
    refine himage.congr fun i hi hlt => ?_
    rw [efSaveEnv, if_neg hno]
    have hi' : i < r.nextSaveAreaAddr ∨ r.nextSaveAreaAddr + eraseSpan r.userUsedSize ≤ i := by
      rw [hnext]
      exact .inl (lt_of_lt_of_le hlt (by decide))
    exact efPortWrite_other (List.length_take_le _ _) hi'
  have hnew : Image (efSaveEnv .done f r).1 true 0 vars := by
    rw [efSaveEnv, if_neg hno]
    exact hsaved
  have hbigger : firstIsBigger (efSaveEnv .done f r).1 = true := by
    rw [firstIsBigger, storedCount_image hkept, storedCount_image hnew]
    decide
  obtain ⟨r', hr', hholds', -⟩ := load_first hkept (fun _ => hbigger) first second
  refine ⟨?_, hnew, { r' with initOk := true }, ?_, hholds'.congr rfl rfl hholds'.size⟩
  · rw [efSaveEnv, if_neg hno]
    rfl
  · rw [efEnvInit, hr']

/-- A cache that has been saved as often as the count goes. -/
def lastRam : Ram where
  cache := setWord emptyRam.cache envParamIndexSavedCount 0xFFFFFFFE
  changed := true
  initOk := true
  curLoadAreaAddr := area false
  nextSaveAreaAddr := area false

theorem overflow_loads_old_empty : let r : Ram := { lastRam.seal with nextSaveAreaAddr := area true }
    let f := (efSaveEnv .done (fun _ => 0xFF) lastRam).1
    (efSaveEnv .done f r).2.map Prod.snd = some .noErr ∧ Image (efSaveEnv .done f r).1 true 0 [] ∧
      ∃ r', efEnvInit .done .done (efSaveEnv .done f r).1 = ((efSaveEnv .done f r).1, some (r', .noErr)) ∧ Holds r' [] := by
  have hword : 4 * envParamIndexSavedCount + 4 ≤ emptyRam.cache.length := by rw [holds_empty.size]; decide
  have hholds : Holds lastRam [] := by
    refine ⟨?_, by decide, ?_, rfl, by decide, List.nodup_nil⟩
    · exact (length_setWord hword _).trans holds_empty.size
    · exact (word_setWord_ne (by decide) hword).trans holds_empty.ends
  have hcount : word lastRam.cache envParamIndexSavedCount = 0xFFFFFFFE := word_setWord hword (by decide)
  obtain ⟨hseal, -, -, hnext, -, hchanged, -⟩ := seal_holds (b := false) hholds rfl
  have himage := image_saved (f := fun _ => 0xFF) (b := false) hholds rfl
  rw [hcount] at hnext himage
  exact overflow_loads_old (r := { lastRam.seal with nextSaveAreaAddr := area true }) (hseal.congr rfl rfl hseal.size) hchanged
    rfl hnext himage .done .done

theorem run_append {xs ys : List Event} : ∀ {m m' : Machine} {answers : List (Option Answer)},
    m.run (xs ++ ys) = some (m', answers) →
    ∃ m₁ front back, m.run xs = some (m₁, front) ∧ m₁.run ys = some (m', back) := by
  induction xs with
  | nil => exact fun h => ⟨_, [], _, rfl, h⟩
  | cons x xs ih =>
    intro m m' answers h
    obtain ⟨m₁, answer, rest, hstep, hrest, rfl⟩ := run_cons h
    obtain ⟨m₂, front, back, hfront, hback⟩ := ih hrest
    refine ⟨m₂, answer :: front, back, ?_, hback⟩
    rw [Machine.run, hstep]
    simp only [Option.bind_eq_bind, Option.bind_some, hfront]
    rfl

/-- Calls go on with the copy, and leave it changed. -/
theorem Follows.calls {slot : Bool → Option (ℕ × Table)} : ∀ {cs : List Call} {m m' : Machine} {q : TwoSlots.Session Table}
    {bound : ℕ} {answers : List (Option Answer)}, Follows m ⟨slot, some q⟩ bound → q.changed = true →
    m.run (cs.map .call) = some (m', answers) →
    ∃ q', Follows m' ⟨slot, some q'⟩ bound ∧ q'.current = q.current ∧ q'.changed = true := by
  intro cs
  induction cs with
  | nil =>
    intro m m' q bound answers hfollows hchanged hrun
    cases hrun
    exact ⟨q, hfollows, rfl, hchanged⟩
  | cons c cs ih =>
    intro m m' q bound answers hfollows hchanged hrun
    obtain ⟨m₁, answer, rest, hstep, hrest, rfl⟩ := run_cons hrun
    obtain ⟨f, ram⟩ := m
    obtain ⟨⟨hslots, hsession⟩, hodd, hbounded⟩ := hfollows
    cases hsession with
    | @some r _ hlive =>
      cases hstep
      set op : Call := if r.initOk then c else .get ⟨[], List.not_mem_nil⟩
      have hwork : (q.work applyCall op).current = q.current ∧ (q.work applyCall op).count = q.count ∧
          (q.work applyCall op).changed = true := by
        rw [TwoSlots.Session.work]
        cases applyCall op q.working with
        | none => exact ⟨rfl, rfl, hchanged⟩
        | some t => exact ⟨rfl, rfl, rfl⟩
      have hnumbers : ∀ {P : Bool → ℕ → Prop}, TwoSlots.Numbers P (⟨slot, some q⟩ : TwoSlots.State Table) →
          TwoSlots.Numbers P (⟨slot, some (q.work applyCall op)⟩ : TwoSlots.State Table) := by
        intro P hP
        refine ⟨hP.slots, fun q' hq' => ?_⟩
        obtain rfl := Option.some.inj hq'
        rw [hwork.1, hwork.2.1]
        exact hP.session q rfl
      have hfollows₁ : Follows ⟨f, some (r.call c).1⟩ ⟨slot, some (q.work applyCall op)⟩ bound :=
        ⟨⟨hslots, .some (call_sim hlive c)⟩, hnumbers hodd, hnumbers hbounded⟩
      obtain ⟨q', hfollows', hcur, hchanged'⟩ := ih hfollows₁ hwork.2.2 hrest
      exact ⟨q', hfollows', hcur.trans hwork.1, hchanged'⟩

/-- A start from two areas that are not valid finds the default environment. -/
theorem boot_default {slot : Bool → Option (ℕ × Table)} {bound : ℕ} (hfollows : Follows m ⟨slot, none⟩ bound) (hlt : bound + 2 < 2 ^ 32)
    (hnone : ∀ b, slot b = none) {answer : Option Answer} (hstep : m.step (.boot .done .done) = some (m', answer)) :
    ∃ r, m'.ram = some r ∧ ∀ key : CString, efGetEnv key.1 r = (tableOf defaultVars).find key.1 := by
  obtain ⟨s', hs', hfollows'⟩ := hfollows.step (e := .boot .done .done) hlt ⟨trivial, trivial⟩ hstep
  rw [Event.slots, TwoSlots.step, TwoSlots.load_none hnone] at hs'
  obtain rfl := Option.some.inj hs'
  have hsession := hfollows'.sim.session
  have hinit : ∀ r ∈ m'.ram, r.initOk = true := by
    obtain ⟨f, ram⟩ := m
    cases hfollows.sim.session with
    | none =>
      cases hstep
      intro r hr
      obtain ⟨p, hp, rfl⟩ := Option.map_eq_some_iff.1 hr
      have hdone : Outcome.done.fate.Quiet := trivial
      exact efEnvInit_quiet hdone hdone f p hp
  cases hram : m'.ram with
  | none =>
    rw [hram] at hsession
    cases hsession
  | some r =>
    rw [hram] at hsession
    cases hsession with
    | some hlive =>
      obtain ⟨vars, hholds, hrep⟩ := hlive.working
      exact ⟨r, rfl, fun key => Refines.get ⟨hholds, hrep, hinit r hram⟩ key.2⟩

end Runs

end W601.Easyflash
