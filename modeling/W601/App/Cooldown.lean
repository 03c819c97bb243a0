import W601.App.Startup

/-!
# The cool-down of the alarm mail (`smtp_module.c`)

The loop of `smtp_thread`, one statement at a time, while other threads call `smtp_enable`, `smtp_disable` and
`smtp_data_config` between its statements. `cold_time` is counted down at the top of the loop, and set again by
the round that sends a mail.

* `threadRound_exec`: a round that nobody interrupts is `threadRound`.
* `cool_down`: what holds of the counter, the mails and the alarms in every run.
-/

namespace W601.Cooldown

open CMem Smtp Settings App Runs

variable {F : Type}

/-- Where `smtp_thread` is in its loop. -/
inductive Pc where
  /-- At the top. -/
  | top
  /-- In front of the test of `enable`. -/
  | cooled
  /-- In front of the comparison of the temperatures. -/
  | enabled
  /-- In front of the test of `cold_time`. -/
  | hot
  /-- In front of the call of `smtp_send_mail`. -/
  | armed
  | sending
  /-- In front of `rt_thread_mdelay`. -/
  | idle
  deriving DecidableEq

/-- The thread among the others, with a record of what it has done. -/
structure Sys (F : Type) where
  device : Device F
  pc : Pc
  /-- The number of the round. -/
  round : ℕ
  /-- The rounds in which `smtp_send_mail` was called. -/
  mails : List ℕ
  /-- The rounds that found the module enabled and the temperature above the limit. -/
  alarms : List ℕ

/-- Parameters of `smtp_data_config` that fit their fields. -/
structure Config where
  save : Save
  tempWarn : List UInt8
  short : Short save
  nulFree : NulFree save

/-- The statements of the thread, and the calls of the others. -/
inductive Ev (F : Type) where
  | cool
  | testEnable
  | testTemp (curTemp : F)
  | testCold
  | sendMail (content : List UInt8)
  /-- The descriptor that a mail leaves behind. -/
  | sent (connFd : ℤ)
  | delay
  | smtpEnable
  | smtpDisable
  | smtpDataConfig (c : Config)

/-- A call of another thread. -/
def Sys.call (s : Sys F) (handler : Handler F Unit) : Option (Sys F) :=
  match handler s.device with
  | .ok _ d => some { s with device := d }
  | .error _ _ => none

section Loop

variable [LT F] [DecidableLT F]

/-- One statement, or one call. -/
def step (atof : List UInt8 → F) (s : Sys F) : Ev F → Option (Sys F)
  | .cool =>
    if s.pc = .top then some { s with device := App.cooled s.device, pc := .cooled, round := s.round + 1 } else none
  | .testEnable =>
    if s.pc = .cooled then some { s with pc := if s.device.mem enableAt ≠ 0 then .enabled else .idle } else none
  | .testTemp curTemp =>
    if s.pc = .enabled then
      some (if s.device.tempWarn < curTemp then { s with pc := .hot, alarms := s.alarms ++ [s.round] }
        else { s with pc := .idle })
    else none
  | .testCold =>
    if s.pc = .hot then
      some (if coldTime s.device.mem ≠ 0 then { s with pc := .idle }
        else { s with device := { s.device with mem := setColdTime s.device.mem warningColdTime }, pc := .armed })
    else none
  | .sendMail content =>
    if s.pc = .armed then
      some { s with
        device := { s.device with session := { s.device.session with subject := smtpSubject, body := content } }
        pc := .sending
        mails := s.mails ++ [s.round] }
    else none
  | .sent connFd =>
    if s.pc = .sending then
      some { s with device := { s.device with session := { s.device.session with connFd := connFd } }, pc := .idle }
    else none
  | .delay => if s.pc = .idle then some { s with pc := .top } else none
  | .smtpEnable => s.call Settings.smtpEnable
  | .smtpDisable => s.call Settings.smtpDisable
  | .smtpDataConfig c => s.call (Settings.smtpDataConfig atof (.all c.save c.tempWarn))

end Loop

/-- The thread behind its initialisation, on a device of any kind. -/
def start (d : Device F) : Sys F := ⟨clearSettings (smtpClientInit d), .top, 0, [], []⟩

/-- **The cool-down is kept.** -/
structure CoolDown (s : Sys F) : Prop where
  bounded : coldTime s.device.mem ≤ warningColdTime
  /-- Two mails are 300 rounds apart. -/
  apart : s.mails.Pairwise fun m n => m + 300 ≤ n
  /-- An alarm is mailed in its round, when there was no mail in the 299 rounds before; in the round at hand the
  thread may still be on its way. -/
  answered : ∀ n ∈ s.alarms, n ∈ s.mails ∨ (∃ m ∈ s.mails, m < n ∧ n < m + 300) ∨
    (n = s.round ∧ (s.pc = .hot ∨ s.pc = .armed))

/-! ## The counter -/

theorem coldTime_setColdTime (mem : ℤ → UInt8) {n : ℕ} (h : n < 2 ^ 32) : coldTime (setColdTime mem n) = n := by
  have hat := at_store [UInt8.ofNat n, UInt8.ofNat (n / 2 ^ 8), UInt8.ofNat (n / 2 ^ 16), UInt8.ofNat (n / 2 ^ 24)] mem 4
  obtain ⟨h0, h1, h2, h3, -⟩ := hat
  unfold coldTime setColdTime
  have e1 : (4 + 1 : ℤ) = 5 := rfl
  have e2 : (5 + 1 : ℤ) = 6 := rfl
  have e3 : (6 + 1 : ℤ) = 7 := rfl
  rw [e1] at h1 h2 h3
  rw [e2] at h2 h3
  rw [e3] at h3
  rw [h0, h1, h2, h3]
  simp only [UInt8.toNat_ofNat']
  omega

theorem coldTime_congr {mem mem' : ℤ → UInt8} (h : ∀ i, 4 ≤ i → i < serverAddrAt → mem i = mem' i) :
    coldTime mem = coldTime mem' := by
  unfold coldTime
  rw [h 4 (by decide) (by decide), h 5 (by decide) (by decide), h 6 (by decide) (by decide), h 7 (by decide) (by decide)]

/-- The first statement of the loop takes one from the counter. -/
theorem coldTime_cooled (d : Device F) (h : coldTime d.mem ≤ warningColdTime) :
    coldTime (App.cooled d).mem = coldTime d.mem - 1 := by
  unfold warningColdTime at h
  unfold App.cooled
  split_ifs with hc
  · exact coldTime_setColdTime _ (by omega)
  · rw [not_not] at hc
    omega

/-- **Other threads leave the counter alone.** -/
theorem coldTime_config (atof : List UInt8 → F) (c : Config) (d : Device F) :
    ∃ t, Settings.smtpDataConfig atof (.all c.save c.tempWarn) d = .ok () t ∧ coldTime t.mem = coldTime d.mem := by
  refine ⟨_, rfl, coldTime_congr fun i _ hi => ?_⟩
  have hmem : d.dropReceiver.mem i = d.mem i := by
    unfold Device.dropReceiver
    split_ifs <;> rfl
  exact (copied_outside c.short d.dropReceiver.mem (Or.inl hi)).trans hmem

/-! ## The invariant -/

/-- **The counter and the last mail.** Outside of the round that sets it, the counter is what is missing to 300 rounds
behind the last mail. -/
structure Inv (s : Sys F) : Prop where
  bounded : coldTime s.device.mem ≤ 300
  /-- Behind the first statement the counter is not full. -/
  started : s.pc = .cooled ∨ s.pc = .enabled ∨ s.pc = .hot → coldTime s.device.mem < 300
  armed : s.pc = .armed → coldTime s.device.mem = 300 ∧ ∀ m ∈ s.mails, m + 300 ≤ s.round
  mails : s.pc ≠ .armed → ∀ m ∈ s.mails, m + 300 ≤ s.round + coldTime s.device.mem
  counts : s.pc ≠ .armed → coldTime s.device.mem ≠ 0 → ∃ m ∈ s.mails, m + 300 = s.round + coldTime s.device.mem
  apart : s.mails.Pairwise fun m n => m + 300 ≤ n
  answered : ∀ n ∈ s.alarms, n ∈ s.mails ∨ (∃ m ∈ s.mails, m < n ∧ n < m + 300) ∨
    (n = s.round ∧ (s.pc = .hot ∨ s.pc = .armed))

theorem Inv.coolDown {s : Sys F} (h : Inv s) : CoolDown s := ⟨h.bounded, h.apart, h.answered⟩

theorem inv_start (d : Device F) : Inv (start d) := by
  have hzero : coldTime (start d).device.mem = 0 := rfl
  constructor
  · rw [hzero]
    omega
  · intro _
    rw [hzero]
    omega
  · intro hpc
    cases hpc
  · intro _ m hm
    cases hm
  · intro _ hne
    exact absurd hzero hne
  · exact List.Pairwise.nil
  · intro n hn
    cases hn

/-- The thread goes on within its round, and the counter is left alone. -/
theorem Inv.goto {s t : Sys F} (h : Inv s) (hcold : coldTime t.device.mem = coldTime s.device.mem) (hround : t.round = s.round)
    (hmails : t.mails = s.mails) (halarms : t.alarms = s.alarms)
    (hpc : t.pc = s.pc ∨ (s.pc ≠ .armed ∧ t.pc ≠ .armed ∧ s.pc ≠ .hot ∧
      (t.pc = .cooled ∨ t.pc = .enabled ∨ t.pc = .hot → s.pc = .cooled ∨ s.pc = .enabled))) : Inv t := by
  refine ⟨?_, ?_, ?_, ?_, ?_, ?_, ?_⟩
  · rw [hcold]
    exact h.bounded
  · intro hlate
    rw [hcold]
    rcases hpc with hpc | ⟨-, -, -, hpc⟩
    · rw [hpc] at hlate
      exact h.started hlate
    · rcases hpc hlate with h1 | h1
      · exact h.started (Or.inl h1)
      · exact h.started (Or.inr (Or.inl h1))
  · intro harmed
    rcases hpc with hpc | ⟨-, hne, -⟩
    · rw [hcold, hmails, hround]
      exact h.armed (hpc ▸ harmed)
    · exact absurd harmed hne
  · intro harmed
    rw [hcold, hmails, hround]
    rcases hpc with hpc | ⟨hne, -⟩
    · exact h.mails (hpc ▸ harmed)
    · exact h.mails hne
  · intro harmed
    rw [hcold, hmails, hround]
    rcases hpc with hpc | ⟨hne, -⟩
    · exact h.counts (hpc ▸ harmed)
    · exact h.counts hne
  · rw [hmails]
    exact h.apart
  · rw [halarms, hmails, hround]
    intro n hn
    rcases hpc with hpc | ⟨hne, -, hhot, -⟩
    · rw [hpc]
      exact h.answered n hn
    · rcases h.answered n hn with h1 | h1 | ⟨-, h1 | h1⟩
      · exact Or.inl h1
      · exact Or.inr (Or.inl h1)
      · exact absurd h1 hhot
      · exact absurd h1 hne

/-- A new round begins: one is taken from the counter, and added to the rounds. -/
theorem Inv.cool {s : Sys F} (h : Inv s) (hpc : s.pc = .top) :
    Inv { s with device := App.cooled s.device, pc := .cooled, round := s.round + 1 } := by
  have hbound := h.bounded
  have hcold := coldTime_cooled s.device hbound
  have hne : s.pc ≠ .armed := by simp [hpc]
  refine ⟨?_, ?_, ?_, ?_, ?_, h.apart, ?_⟩
  · dsimp only
    omega
  · intro _
    dsimp only
    omega
  · intro harmed
    cases harmed
  · intro _ m hm
    have hle := h.mails hne m hm
    dsimp only
    omega
  · intro _ hpos
    dsimp only at hpos ⊢
    obtain ⟨m, hm, heq⟩ := h.counts hne (by omega)
    exact ⟨m, hm, by omega⟩
  · intro n hn
    rcases h.answered n hn with h1 | h1 | ⟨-, h1 | h1⟩
    · exact Or.inl h1
    · exact Or.inr (Or.inl h1)
    · simp [hpc] at h1
    · exact absurd h1 hne

/-- A round finds an alarm. -/
theorem Inv.alarm {s : Sys F} (h : Inv s) (hpc : s.pc = .enabled) :
    Inv { s with pc := .hot, alarms := s.alarms ++ [s.round] } := by
  have hne : s.pc ≠ .armed := by simp [hpc]
  refine ⟨h.bounded, fun _ => h.started (Or.inr (Or.inl hpc)), ?_, fun _ => h.mails hne, fun _ => h.counts hne, h.apart, ?_⟩
  · intro harmed
    cases harmed
  · intro n hn
    rcases List.mem_append.1 hn with hn | hn
    · rcases h.answered n hn with h1 | h1 | ⟨h1, -⟩
      · exact Or.inl h1
      · exact Or.inr (Or.inl h1)
      · exact Or.inr (Or.inr ⟨h1, Or.inl rfl⟩)
    · exact Or.inr (Or.inr ⟨List.mem_singleton.1 hn, Or.inl rfl⟩)

/-- **An alarm within the cool-down** is not mailed, and there was a mail in the rounds before. -/
theorem Inv.cold {s : Sys F} (h : Inv s) (hpc : s.pc = .hot) (hcold : coldTime s.device.mem ≠ 0) :
    Inv { s with pc := .idle } := by
  have hne : s.pc ≠ .armed := by simp [hpc]
  have hlt := h.started (Or.inr (Or.inr hpc))
  refine ⟨h.bounded, ?_, ?_, fun _ => h.mails hne, fun _ => h.counts hne, h.apart, ?_⟩
  · rintro (hpc | hpc | hpc) <;> cases hpc
  · intro harmed
    cases harmed
  · intro n hn
    rcases h.answered n hn with h1 | h1 | ⟨rfl, -⟩
    · exact Or.inl h1
    · exact Or.inr (Or.inl h1)
    · obtain ⟨m, hm, heq⟩ := h.counts hne hcold
      exact Or.inr (Or.inl ⟨m, hm, by omega, by omega⟩)

/-- **An alarm behind the cool-down** sets the counter, 300 rounds or more behind the last mail. -/
theorem Inv.arm {s : Sys F} (h : Inv s) (hpc : s.pc = .hot) (hcold : coldTime s.device.mem = 0) :
    Inv { s with device := { s.device with mem := setColdTime s.device.mem warningColdTime }, pc := .armed } := by
  have hne : s.pc ≠ .armed := by simp [hpc]
  have hset : coldTime (setColdTime s.device.mem warningColdTime) = 300 := coldTime_setColdTime _ (by decide)
  refine ⟨hset.le, ?_, ?_, ?_, ?_, h.apart, ?_⟩
  · rintro (hpc | hpc | hpc) <;> cases hpc
  · intro _
    refine ⟨hset, fun m hm => ?_⟩
    have hle := h.mails hne m hm
    rw [hcold, Nat.add_zero] at hle
    exact hle
  · intro harmed
    exact absurd rfl harmed
  · intro harmed
    exact absurd rfl harmed
  · intro n hn
    rcases h.answered n hn with h1 | h1 | ⟨h1, -⟩
    · exact Or.inl h1
    · exact Or.inr (Or.inl h1)
    · exact Or.inr (Or.inr ⟨h1, Or.inr rfl⟩)

/-- **The mail is sent.** -/
theorem Inv.mailed {s t : Sys F} (h : Inv s) (hpc : s.pc = .armed) (hmem : t.device.mem = s.device.mem)
    (hround : t.round = s.round) (hmails : t.mails = s.mails ++ [s.round]) (halarms : t.alarms = s.alarms)
    (hnext : t.pc = .sending) : Inv t := by
  obtain ⟨hcold, hlast⟩ := h.armed hpc
  refine ⟨?_, ?_, ?_, ?_, ?_, ?_, ?_⟩
  · rw [hmem]
    exact h.bounded
  · rw [hnext]
    rintro (hpc | hpc | hpc) <;> cases hpc
  · rw [hnext]
    intro harmed
    cases harmed
  · rw [hmem, hmails, hround, hcold]
    intro _ m hm
    rcases List.mem_append.1 hm with hm | hm
    · exact (hlast m hm).trans (Nat.le_add_right _ _)
    · rw [List.mem_singleton.1 hm]
  · rw [hmem, hmails, hround, hcold]
    exact fun _ _ => ⟨s.round, by simp, rfl⟩
  · rw [hmails]
    refine List.pairwise_append.2 ⟨h.apart, List.pairwise_singleton _ _, fun m hm n hn => ?_⟩
    rw [List.mem_singleton.1 hn]
    exact hlast m hm
  · rw [halarms, hmails]
    intro n hn
    rcases h.answered n hn with h1 | ⟨m, hm, h1⟩ | ⟨rfl, -⟩
    · exact Or.inl (List.mem_append_left _ h1)
    · exact Or.inr (Or.inl ⟨m, List.mem_append_left _ hm, h1⟩)
    · exact Or.inl (by simp)

/-- A call of another thread changes nothing but cells outside of the counter. -/
theorem Inv.call {s t : Sys F} {handler : Handler F Unit} (h : Inv s) (hs : s.call handler = some t)
    (hcold : ∀ d, handler s.device = .ok () d → coldTime d.mem = coldTime s.device.mem) : Inv t := by
  unfold Sys.call at hs
  split at hs
  · rename_i d hd
    obtain rfl := Option.some.inj hs
    exact h.goto (hcold d hd) rfl rfl rfl (Or.inl rfl)
  · cases hs

theorem coldTime_enable (v : UInt8) (mem : ℤ → UInt8) : coldTime (Function.update mem enableAt v) = coldTime mem := by
  apply coldTime_congr
  intro i hi _
  apply Function.update_of_ne
  unfold enableAt
  omega

section Runs

variable [LT F] [DecidableLT F] {atof : List UInt8 → F}

/-- **Every statement of the thread and every call keeps the invariant.** -/
theorem inv_step (s : Sys F) (e : Ev F) (t : Sys F) (h : Inv s) (hs : step atof s e = some t) : Inv t := by
  cases e with
  | cool =>
    simp only [step, Option.ite_none_right_eq_some, Option.some.injEq] at hs
    obtain ⟨hpc, rfl⟩ := hs
    exact h.cool hpc
  | testEnable =>
    simp only [step, Option.ite_none_right_eq_some, Option.some.injEq] at hs
    obtain ⟨hpc, rfl⟩ := hs
    refine h.goto rfl rfl rfl rfl (Or.inr ⟨by simp [hpc], ?_, by simp [hpc], fun _ => Or.inl hpc⟩)
    dsimp only
    split_ifs <;> simp
  | testTemp curTemp =>
    simp only [step, Option.ite_none_right_eq_some, Option.some.injEq] at hs
    obtain ⟨hpc, rfl⟩ := hs
    split_ifs
    · exact h.alarm hpc
    · exact h.goto rfl rfl rfl rfl (Or.inr ⟨by simp [hpc], by simp, by simp [hpc], fun _ => Or.inr hpc⟩)
  | testCold =>
    simp only [step, Option.ite_none_right_eq_some, Option.some.injEq] at hs
    obtain ⟨hpc, rfl⟩ := hs
    split_ifs with hcold
    · exact h.cold hpc hcold
    · rw [not_not] at hcold
      exact h.arm hpc hcold
  | sendMail content =>
    simp only [step, Option.ite_none_right_eq_some, Option.some.injEq] at hs
    obtain ⟨hpc, rfl⟩ := hs
    exact h.mailed hpc rfl rfl rfl rfl rfl
  | sent connFd =>
    simp only [step, Option.ite_none_right_eq_some, Option.some.injEq] at hs
    obtain ⟨hpc, rfl⟩ := hs
    exact h.goto rfl rfl rfl rfl (Or.inr ⟨by simp [hpc], by simp, by simp [hpc], by simp⟩)
  | delay =>
    simp only [step, Option.ite_none_right_eq_some, Option.some.injEq] at hs
    obtain ⟨hpc, rfl⟩ := hs
    exact h.goto rfl rfl rfl rfl (Or.inr ⟨by simp [hpc], by simp, by simp [hpc], by simp⟩)
  | smtpEnable =>
    have hcall : s.call Settings.smtpEnable = some t := hs
    apply h.call hcall
    intro d hd
    obtain ⟨-, rfl⟩ := EStateM.Result.ok.inj hd
    exact coldTime_enable 1 _
  | smtpDisable =>
    have hcall : s.call Settings.smtpDisable = some t := hs
    apply h.call hcall
    intro d hd
    obtain ⟨-, rfl⟩ := EStateM.Result.ok.inj hd
    exact coldTime_enable 0 _
  | smtpDataConfig c =>
    have hcall : s.call (Settings.smtpDataConfig atof (.all c.save c.tempWarn)) = some t := hs
    apply h.call hcall
    intro d hd
    obtain ⟨t', ht, hcold⟩ := coldTime_config atof c s.device
    obtain ⟨-, rfl⟩ := EStateM.Result.ok.inj (ht.symm.trans hd)
    exact hcold

/-- **The cool-down is kept in every run**, whatever the temperatures and the mails do and whichever calls come between the
statements of the thread. -/
theorem cool_down (atof : List UInt8 → F) (d : Device F) (events : List (Ev F)) :
    Upholds (step atof) CoolDown (start d) events :=
  upholds_of_inv (fun _ => Inv.coolDown) inv_step (inv_start d)

/-- **A round that nobody interrupts** is `threadRound`. -/
theorem threadRound_exec (atof : List UInt8 → F) (curTemp : F) (content : List UInt8) (connFd : ℤ) {s : Sys F}
    (h : s.pc = .top) : ∃ events t, exec (step atof) s events = some t ∧ t.pc = .top ∧
      t.device = threadRound curTemp content connFd s.device := by
  set d := App.cooled s.device with hd
  by_cases henable : d.mem enableAt ≠ 0
  · by_cases hwarm : d.tempWarn < curTemp
    · by_cases hcold : coldTime d.mem ≠ 0
      · have hmails : mails curTemp d = false := by simp [mails, hcold]
        refine ⟨[.cool, .testEnable, .testTemp curTemp, .testCold, .delay], ?_⟩
        simp [exec, step, h, henable, hwarm, hcold, threadRound, ← hd, hmails]
      · rw [not_not] at hcold
        have hmails : mails curTemp d = true := by simp [mails, henable, hwarm, hcold]
        refine ⟨[.cool, .testEnable, .testTemp curTemp, .testCold, .sendMail content, .sent connFd, .delay], ?_⟩
        simp [exec, step, h, henable, hwarm, hcold, threadRound, ← hd, hmails]
    · have hmails : mails curTemp d = false := by simp [mails, hwarm]
      refine ⟨[.cool, .testEnable, .testTemp curTemp, .delay], ?_⟩
      simp [exec, step, h, henable, hwarm, threadRound, ← hd, hmails]
  · rw [not_not] at henable
    have hmails : mails curTemp d = false := by simp [mails, henable]
    refine ⟨[.cool, .testEnable, .delay], ?_⟩
    simp [exec, step, h, henable, threadRound, ← hd, hmails]

end Runs

end W601.Cooldown
