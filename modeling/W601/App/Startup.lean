import W601.Lib.Runs
import W601.Smtp.Ready
import W601.Web.SmtpData

/-!
# Start-up and the mail thread (`W601_app.c`, `smtp_module.c`)

`w601_app_init` lets the web server take requests and then creates the thread `smtp_thread`, which begins with
clearing the session and the settings, and goes into its loop. The threads of the system run in any order.

* `saved_of_orderly`: a save that has been answered is kept when the thread has cleared everything before, and the
  values are such that all setters take them.
* `mailed_configured`: a mail is tried on a configured session only, when nothing is enabled before there is a port.
-/

namespace W601.App

open CMem Smtp Settings Json Runs

variable {F : Type}

/-! ## The system -/

/-- How far `smtp_thread` is. -/
inductive MailThread where
  | absent
  | created
  | inited
  | looping
  deriving DecidableEq

/-- The system. -/
structure Sys (F : Type) where
  device : Device F
  /-- The web server takes requests. -/
  serving : Bool
  thread : MailThread
  /-- The parameters of the last `smtp_save` that was answered. -/
  last : Option Params

/-- What happens in the system. -/
inductive Ev (F : Type) where
  | webModuleInit
  | smtpModuleInit
  | smtpClientInit
  | clearSettings
  | smtpSave (items : List QueryItem)
  | smtpEnable
  | smtpDisable
  /-- A round of the loop of `smtp_thread`: the temperature, the text of the mail, and the descriptor that a mail
  leaves behind. -/
  | round (curTemp : F) (content : List UInt8) (connFd : ℤ)

/-- `smtp_client_init`. -/
def smtpClientInit (d : Device F) : Device F := { d with session := Store.cleared.session }

/-- `rt_memset` of `w601_smtp`. -/
def clearSettings (d : Device F) : Device F := { d with mem := fun i => if 0 ≤ i ∧ i < 320 then 0 else d.mem i }

/-- `w601_smtp.cold_time`. -/
def coldTime (mem : ℤ → UInt8) : ℕ :=
  (mem 4).toNat + 2 ^ 8 * (mem 5).toNat + 2 ^ 16 * (mem 6).toNat + 2 ^ 24 * (mem 7).toNat

/-- An assignment to `w601_smtp.cold_time`. -/
def setColdTime (mem : ℤ → UInt8) (n : ℕ) : ℤ → UInt8 :=
  store mem 4 [UInt8.ofNat n, UInt8.ofNat (n / 2 ^ 8), UInt8.ofNat (n / 2 ^ 16), UInt8.ofNat (n / 2 ^ 24)]

/-- `WARNING_COLD_TIME`. -/
def warningColdTime : ℕ := 300

/-- `SMTP_SUBJECT`. -/
def smtpSubject : List UInt8 := text "W601 MONITOR WARNING"

/-- The first statement of the loop. -/
def cooled (d : Device F) : Device F :=
  if coldTime d.mem ≠ 0 then { d with mem := setColdTime d.mem (coldTime d.mem - 1) } else d

/-- A request to the web server. Nothing comes after a string function was given a null pointer. -/
def Sys.request {α : Type} (s : Sys F) (handler : Handler F α) : Option (Sys F) :=
  if s.serving then
    match handler s.device with
    | .ok _ d => some { s with device := d }
    | .error _ _ => none
  else none

section Loop

variable [LT F] [DecidableLT F]

/-- The loop calls `smtp_send_mail`. -/
def mails (curTemp : F) (d : Device F) : Bool :=
  d.mem enableAt ≠ 0 && d.tempWarn < curTemp && coldTime d.mem = 0

/-- A round of the loop of `smtp_thread`. A mail leaves the subject, the text and a descriptor in the session. -/
def threadRound (curTemp : F) (content : List UInt8) (connFd : ℤ) (d : Device F) : Device F :=
  let d := cooled d
  if mails curTemp d then
    { d with
      mem := setColdTime d.mem warningColdTime
      session := { d.session with subject := smtpSubject, body := content, connFd := connFd } }
  else d

/-- One event. -/
def step (atof : List UInt8 → F) (s : Sys F) : Ev F → Option (Sys F)
  | .webModuleInit => if s.serving then none else some { s with serving := true }
  | .smtpModuleInit =>
    if s.serving = true ∧ s.thread = .absent then some { s with thread := .created } else none
  | .smtpClientInit =>
    if s.thread = .created then some { s with device := smtpClientInit s.device, thread := .inited } else none
  | .clearSettings =>
    if s.thread = .inited then some { s with device := clearSettings s.device, thread := .looping } else none
  | .smtpSave items => (s.request (cgiSmtpSave atof items)).map fun t => { t with last := some (saveParams items) }
  | .smtpEnable => s.request smtpEnable
  | .smtpDisable => s.request smtpDisable
  | .round curTemp content connFd =>
    if s.thread = .looping then some { s with device := threadRound curTemp content connFd s.device } else none

end Loop

/-- The system before `w601_app_init`. -/
def Sys.boot [Zero F] : Sys F := ⟨.boot, false, .absent, none⟩

/-! ## The steps -/

/-- **What a step can do.** -/
inductive Stepped [LT F] [DecidableLT F] (atof : List UInt8 → F) (s t : Sys F) : Ev F → Prop where
  | webModuleInit : t = { s with serving := true } → Stepped atof s t .webModuleInit
  | smtpModuleInit : s.thread = .absent → t = { s with thread := .created } → Stepped atof s t .smtpModuleInit
  | smtpClientInit : s.thread = .created → t = { s with device := smtpClientInit s.device, thread := .inited } →
      Stepped atof s t .smtpClientInit
  | clearSettings : s.thread = .inited → t = { s with device := clearSettings s.device, thread := .looping } →
      Stepped atof s t .clearSettings
  | smtpSave {items : List QueryItem} (r : Save) (w : List UInt8) : saveParams items = .all r w →
      t = { s with device := saved atof r w s.device, last := some (.all r w) } → Stepped atof s t (.smtpSave items)
  | smtpEnable : t = { s with device := { s.device with mem := Function.update s.device.mem enableAt 1 } } →
      Stepped atof s t .smtpEnable
  | smtpDisable : t = { s with device := { s.device with mem := Function.update s.device.mem enableAt 0 } } →
      Stepped atof s t .smtpDisable
  | round {curTemp : F} {content : List UInt8} {connFd : ℤ} : s.thread = .looping →
      t = { s with device := threadRound curTemp content connFd s.device } →
      Stepped atof s t (.round curTemp content connFd)

theorem stepped [LT F] [DecidableLT F] {atof : List UInt8 → F} {s t : Sys F} {e : Ev F} (h : step atof s e = some t) :
    Stepped atof s t e := by
  cases e with
  | webModuleInit =>
    rw [step] at h
    split_ifs at h
    exact .webModuleInit (Option.some.inj h).symm
  | smtpModuleInit =>
    rw [step] at h
    split_ifs at h with hc
    exact .smtpModuleInit hc.2 (Option.some.inj h).symm
  | smtpClientInit =>
    rw [step] at h
    split_ifs at h with hc
    exact .smtpClientInit hc (Option.some.inj h).symm
  | clearSettings =>
    rw [step] at h
    split_ifs at h with hc
    exact .clearSettings hc (Option.some.inj h).symm
  | smtpSave items =>
    obtain ⟨u, hu, ht⟩ := Option.map_eq_some_iff.1 h
    unfold Sys.request at hu
    split_ifs at hu
    by_cases hall : ∃ r w, saveParams items = .all r w
    · obtain ⟨r, w, hp⟩ := hall
      rw [cgiSmtpSave_all hp] at hu
      obtain rfl := Option.some.inj hu
      refine .smtpSave r w hp ?_
      rw [← ht, hp]
    · obtain ⟨d, hd⟩ := cgiSmtpSave_null atof hall s.device
      rw [hd] at hu
      exact absurd hu (by simp)
  | smtpEnable =>
    rw [step, Sys.request] at h
    split_ifs at h
    exact .smtpEnable (Option.some.inj h).symm
  | smtpDisable =>
    rw [step, Sys.request] at h
    split_ifs at h
    exact .smtpDisable (Option.some.inj h).symm
  | round curTemp content connFd =>
    rw [step] at h
    split_ifs at h with hc
    exact .round hc (Option.some.inj h).symm

/-! ## A round and the settings -/

theorem setColdTime_outside (mem : ℤ → UInt8) (n : ℕ) {i : ℤ} (hi : i < 4 ∨ serverAddrAt ≤ i) :
    setColdTime mem n i = mem i := by
  unfold setColdTime
  apply store_outside _ _ _
  simp only [serverAddrAt, List.length_cons, List.length_nil] at hi ⊢
  push_cast
  omega

/-- The cells that a round leaves alone: all but `cold_time`. -/
theorem cooled_mem (d : Device F) {i : ℤ} (hi : i < 4 ∨ serverAddrAt ≤ i) : (cooled d).mem i = d.mem i := by
  unfold cooled
  split_ifs
  · exact setColdTime_outside d.mem _ hi
  · rfl

theorem cooled_session (d : Device F) : (cooled d).session = d.session := by
  unfold cooled
  split_ifs <;> rfl

section Round

variable [LT F] [DecidableLT F] (curTemp : F) (content : List UInt8) (connFd : ℤ) (d : Device F)

theorem threadRound_mem {i : ℤ} (hi : i < 4 ∨ serverAddrAt ≤ i) :
    (threadRound curTemp content connFd d).mem i = d.mem i := by
  unfold threadRound
  dsimp only
  split_ifs
  · exact (setColdTime_outside _ _ hi).trans (cooled_mem d hi)
  · exact cooled_mem d hi

theorem threadRound_tempWarn : (threadRound curTemp content connFd d).tempWarn = d.tempWarn := by
  unfold threadRound cooled
  dsimp only
  split_ifs <;> rfl

/-- A round leaves the configuration of the session alone. -/
theorem threadRound_session :
    ∃ subject body fd, (threadRound curTemp content connFd d).session =
      { d.session with subject := subject, body := body, connFd := fd } := by
  unfold threadRound cooled
  dsimp only
  split_ifs <;> exact ⟨_, _, _, rfl⟩

end Round

/-! ## A save that is kept -/

/-- **The session has the settings**: server, credentials in Base64, sender and the one receiver. -/
structure Holds (r : Save) (s : SmtpSession) : Prop where
  domain : s.serverDomain.map (·.text) = some r.serverAddr
  port : s.serverPort.map (·.text) = some r.serverPort
  username : smtpBase64Encode (maxAuthLen * 2) r.username = some s.username
  password : smtpBase64Encode (maxAuthLen * 2) r.password = some s.password
  sender : s.addressFrom = r.username
  receiver : s.addressTo.map (·.addr) = [r.receiver]

/-- **The last save is not lost**: it is reported by `json_create_smtp_data`, and the session has it. -/
def LastKept (atof : List UInt8 → F) (s : Sys F) : Prop :=
  ∀ r w, s.last = some (.all r w) →
    (∀ fmt : Print2f F, jsonCreateSmtpData fmt s.device =
      printObject (smtpMembers (moduleOf r) ((fmt.print (atof w)).take 9) (s.device.mem enableAt).toNat)) ∧
    Holds r s.device.session

/-- The setters take all of the settings. -/
structure Taken (r : Save) : Prop where
  short : Short r
  port : r.serverPort ≠ []
  username : r.username ≠ []
  password : r.password ≠ []

/-- **The order that keeps a save**: nothing is cleared behind it, it is one that the setters take, and the receiver
of the save before it can be told from no receiver. -/
def KeepsSaves (s : Sys F) : Ev F → Prop
  | .smtpClientInit => s.last = none
  | .clearSettings => s.last = none
  | .smtpSave items => ∀ r w, saveParams items = .all r w →
      Taken r ∧ ∀ r0 w0, s.last = some (.all r0 w0) → r0.receiver ≠ []
  | _ => True

theorem base64_some {u : List UInt8} (h : u.length < 50) : ∃ a, smtpBase64Encode (maxAuthLen * 2) u = some a := by
  unfold smtpBase64Encode
  dsimp only
  rw [if_neg]
  · exact ⟨_, rfl⟩
  · have hmax : maxAuthLen * 2 = 100 := rfl
    rw [hmax]
    split_ifs <;> omega

/-- Credentials that are not empty are set. -/
theorem smtpSetAuth_taken (m : Store) {u p : List UInt8} (hu : u ≠ []) (hp : p ≠ []) (hul : u.length < 50)
    (hpl : p.length < 50) :
    ∃ a b, smtpBase64Encode (maxAuthLen * 2) u = some a ∧ smtpBase64Encode (maxAuthLen * 2) p = some b ∧
      (smtpSetAuth m u p).1.session = { m.session with addressFrom := u, username := a, password := b } := by
  obtain ⟨a, ha⟩ := base64_some hul
  obtain ⟨b, hb⟩ := base64_some hpl
  refine ⟨a, b, ha, hb, ?_⟩
  have h1 : ¬ (u.length = 0 ∨ p.length = 0) := by
    rw [List.length_eq_zero_iff, List.length_eq_zero_iff]
    exact not_or.2 ⟨hu, hp⟩
  have hmax : maxAddrLen = 100 := rfl
  have h2 : ¬ u.length > maxAddrLen := by omega
  unfold smtpSetAuth
  rw [if_neg h1, if_neg h2, ha]
  dsimp only
  rw [hb]

/-- **A save on a session without receivers** leaves its settings there. -/
theorem smtpDataConfig_holds {m : Store} {r : Save} (h : Taken r)
    (hrcv : (if m.w601Smtp.receiver ≠ [] then (smtpDeleteReceiver m m.w601Smtp.receiver).1 else m).session.addressTo =
      []) : Holds r (Smtp.smtpDataConfig m r).session := by
  unfold Smtp.smtpDataConfig
  generalize (if m.w601Smtp.receiver ≠ [] then (smtpDeleteReceiver m m.w601Smtp.receiver).1 else m) = m1 at hrcv ⊢
  dsimp only
  generalize hm2 : ({ m1 with
    w601Smtp := ⟨r.serverAddr, r.serverPort, r.username, r.password, r.receiver⟩
    overflow := m1.overflow || !r.fits } : Store) = m2
  have hrcv2 : m2.session.addressTo = [] := by
    rw [← hm2]
    exact hrcv
  have haddr := smtpSetServerAddr_session m2 r.serverAddr r.serverPort
  rw [if_neg h.port] at haddr
  obtain ⟨a, b, ha, hb, hauth⟩ := smtpSetAuth_taken (smtpSetServerAddr m2 r.serverAddr true r.serverPort).1 h.username
    h.password h.short.username h.short.password
  rw [haddr] at hauth
  refine ⟨?_, ?_, ?_, ?_, ?_, ?_⟩ <;> simp only [smtpAddReceiver, hauth]
  · rfl
  · rfl
  · exact ha
  · exact hb
  · rw [hrcv2]
    rfl

theorem unlink_self (id : ℕ) (a : List UInt8) : unlink a [⟨id, a⟩] = some (⟨id, a⟩, []) := by
  unfold unlink
  rw [if_pos (by simp)]

theorem store_session (d : Device F) : d.store.session = d.session := rfl

/-- What the invariant says of a device: of a fresh one, or of one with a save. -/
def Fresh (d : Device F) : Prop := d.session.addressTo = [] ∧ d.mem receiverAt = 0

/-- The device has the settings. -/
structure Has (atof : List UInt8 → F) (r : Save) (w : List UInt8) (d : Device F) : Prop where
  strings : strings d.mem = moduleOf r
  tempWarn : d.tempWarn = atof w
  session : Holds r d.session

/-- The old receiver is gone before the new one is added. -/
theorem receivers_before_add {atof : List UInt8 → F} {d : Device F}
    (h : Fresh d ∨ ∃ r0 w0, Has atof r0 w0 d ∧ r0.receiver ≠ []) :
    (if d.store.w601Smtp.receiver ≠ [] then (smtpDeleteReceiver d.store d.store.w601Smtp.receiver).1
      else d.store).session.addressTo = [] := by
  rcases h with ⟨hrcv, hmem⟩ | ⟨r0, w0, hhas, hne⟩
  · have hnil : d.store.w601Smtp.receiver = [] := cstr_eq_nil.2 hmem
    rw [if_neg (not_not.2 hnil)]
    exact hrcv
  · have hr : d.store.w601Smtp.receiver = r0.receiver := congrArg SmtpModule.receiver hhas.strings
    rw [hr, if_pos hne]
    obtain ⟨n, l, hl⟩ : ∃ n l, d.session.addressTo = n :: l :=
      List.exists_cons_of_ne_nil fun h => by
        have := hhas.session.receiver
        rw [h] at this
        exact absurd this (by simp)
    have hlist := hhas.session.receiver
    rw [hl, List.map_cons, List.cons.injEq, List.map_eq_nil_iff] at hlist
    obtain ⟨haddr, rfl⟩ := hlist
    have hunlink : unlink r0.receiver d.store.session.addressTo = some (n, []) := by
      have hl' : d.store.session.addressTo = [⟨n.id, r0.receiver⟩] := by
        rw [← haddr]
        exact hl
      rw [hl', unlink_self, ← haddr]
    unfold smtpDeleteReceiver
    rw [hunlink]

/-- **A save that the setters take is kept.** -/
theorem has_saved {atof : List UInt8 → F} {d : Device F} {r : Save} {w : List UInt8} (ht : Taken r) (h0 : NulFree r)
    (h : Fresh d ∨ ∃ r0 w0, Has atof r0 w0 d ∧ r0.receiver ≠ []) : Has atof r w (saved atof r w d) := by
  refine ⟨saved_strings ht.short h0 atof w d, saved_tempWarn atof r w d, ?_⟩
  rw [← store_session, saved_refines ht.short h0 atof w d]
  exact smtpDataConfig_holds ht (receivers_before_add h)

/-- The settings of a device depend on the strings, the temperature and the configuration of the session. -/
theorem Has.congr {atof : List UInt8 → F} {r : Save} {w : List UInt8} {d t : Device F} (h : Has atof r w d)
    (hmem : ∀ i, serverAddrAt ≤ i → t.mem i = d.mem i) (htemp : t.tempWarn = d.tempWarn)
    (hsession : ∃ subject body fd, t.session = { d.session with subject := subject, body := body, connFd := fd }) :
    Has atof r w t := by
  obtain ⟨x, y, z, hsession⟩ := hsession
  refine ⟨(strings_congr hmem).trans h.strings, htemp.trans h.tempWarn, ?_⟩
  rw [hsession]
  exact ⟨h.session.domain, h.session.port, h.session.username, h.session.password, h.session.sender,
    h.session.receiver⟩

theorem Fresh.congr {d t : Device F} (h : Fresh d) (hmem : ∀ i, serverAddrAt ≤ i → t.mem i = d.mem i)
    (hsession : ∃ subject body fd, t.session = { d.session with subject := subject, body := body, connFd := fd }) :
    Fresh t := by
  obtain ⟨x, y, z, hsession⟩ := hsession
  refine ⟨?_, (hmem receiverAt (by decide)).trans h.2⟩
  rw [hsession]
  exact h.1

/-- Before the first save the device is fresh, and then it has the last one. -/
structure KeptInv (atof : List UInt8 → F) (s : Sys F) : Prop where
  fresh : s.last = none → Fresh s.device
  has : ∀ p, s.last = some p → ∃ r w, p = .all r w ∧ Has atof r w s.device

theorem KeptInv.congr {atof : List UInt8 → F} {s t : Sys F} (h : KeptInv atof s) (hlast : t.last = s.last)
    (hmem : ∀ i, serverAddrAt ≤ i → t.device.mem i = s.device.mem i) (htemp : t.device.tempWarn = s.device.tempWarn)
    (hsession : ∃ subject body fd, t.device.session =
      { s.device.session with subject := subject, body := body, connFd := fd }) : KeptInv atof t := by
  refine ⟨fun hn => ?_, fun p hp => ?_⟩
  · exact (h.fresh (hlast.symm.trans hn)).congr hmem hsession
  · obtain ⟨r, w, he, hhas⟩ := h.has p (hlast.symm.trans hp)
    exact ⟨r, w, he, hhas.congr hmem htemp hsession⟩

theorem KeptInv.lastKept {atof : List UInt8 → F} {s : Sys F} (h : KeptInv atof s) : LastKept atof s := by
  intro r w hlast
  obtain ⟨r', w', hp, hhas⟩ := h.has _ hlast
  obtain ⟨rfl, rfl⟩ := Params.all_inj hp
  refine ⟨fun fmt => ?_, hhas.session⟩
  unfold jsonCreateSmtpData
  rw [hhas.strings, hhas.tempWarn]

/-- What is fresh before the first save may be cleared. -/
theorem KeptInv.clear {atof : List UInt8 → F} {t : Sys F} (hlast : t.last = none) (h : Fresh t.device) :
    KeptInv atof t :=
  ⟨fun _ => h, fun p hp => absurd (hlast.symm.trans hp) (by simp)⟩

section Runs

variable [LT F] [DecidableLT F] {atof : List UInt8 → F}

/-- **One step** of an order that keeps saves. -/
theorem keptInv_step (s : Sys F) (e : Ev F) (t : Sys F) (h : KeptInv atof s) (hg : KeepsSaves s e)
    (hs : step atof s e = some t) : KeptInv atof t := by
  have hsame : ∃ subject body fd, s.device.session =
      { s.device.session with subject := subject, body := body, connFd := fd } := ⟨_, _, _, rfl⟩
  have hupdate : ∀ (v : UInt8) (i : ℤ), serverAddrAt ≤ i →
      Function.update s.device.mem enableAt v i = s.device.mem i := by
    intro v i hi
    refine Function.update_of_ne ?_ _ _
    simp only [serverAddrAt, enableAt] at hi ⊢
    omega
  cases stepped hs with
  | webModuleInit ht =>
    subst ht
    exact h.congr rfl (fun _ _ => rfl) rfl hsame
  | smtpModuleInit _ ht =>
    subst ht
    exact h.congr rfl (fun _ _ => rfl) rfl hsame
  | smtpClientInit _ ht =>
    subst ht
    have hlast : s.last = none := hg
    exact KeptInv.clear hlast ⟨rfl, (h.fresh hlast).2⟩
  | clearSettings _ ht =>
    subst ht
    have hlast : s.last = none := hg
    exact KeptInv.clear hlast ⟨(h.fresh hlast).1, rfl⟩
  | smtpSave r w hp ht =>
    subst ht
    obtain ⟨htaken, hprev⟩ := hg r w hp
    -- the state before the save
    have hbefore : Fresh s.device ∨ ∃ r0 w0, Has atof r0 w0 s.device ∧ r0.receiver ≠ [] := by
      cases hlast : s.last with
      | none => exact Or.inl (h.fresh hlast)
      | some p =>
        obtain ⟨r0, w0, rfl, hhas⟩ := h.has p hlast
        exact Or.inr ⟨r0, w0, hhas, hprev r0 w0 hlast⟩
    refine ⟨fun hn => absurd hn (by simp), fun p hp' => ?_⟩
    obtain rfl := Option.some.inj hp'
    exact ⟨r, w, rfl, has_saved htaken (saveParams_nulFree hp) hbefore⟩
  | smtpEnable ht =>
    subst ht
    exact h.congr rfl (hupdate 1) rfl hsame
  | smtpDisable ht =>
    subst ht
    exact h.congr rfl (hupdate 0) rfl hsame
  | round _ ht =>
    subst ht
    exact h.congr rfl (fun i hi => threadRound_mem _ _ _ _ (Or.inr hi)) (threadRound_tempWarn _ _ _ _)
      (threadRound_session _ _ _ _)

/-- **A save that has been answered is kept**, in every run in which the thread clears before the first save and the
saves are such that the setters take them. -/
theorem saved_of_orderly [Zero F] (atof : List UInt8 → F) (events : List (Ev F))
    (h : Orderly (step atof) KeepsSaves Sys.boot events) : Upholds (step atof) (LastKept atof) Sys.boot events :=
  upholds_of_orderly (fun _ => KeptInv.lastKept) keptInv_step (KeptInv.clear rfl ⟨rfl, rfl⟩) h

end Runs

/-- A save with ordinary settings. -/
def ordinarySave : List QueryItem := saveWith (text "secret") (by decide)

theorem ordinarySave_params : saveParams ordinarySave = .all (saveOf (text "secret")) (text "30") := rfl

theorem ordinarySave_taken : Taken (saveOf (text "secret")) :=
  ⟨⟨by decide, by decide, by decide, by decide, by decide⟩, by decide, by decide, by decide⟩

/-- The thread clears, and then there is a save. -/
theorem saved_of_orderly_once :
    Orderly (step fun _ => (30 : ℤ)) KeepsSaves Sys.boot
        [.webModuleInit, .smtpModuleInit, .smtpClientInit, .clearSettings, .smtpSave ordinarySave] ∧
      Upholds (step fun _ => (30 : ℤ)) (LastKept fun _ => (30 : ℤ)) Sys.boot
        [.webModuleInit, .smtpModuleInit, .smtpClientInit, .clearSettings, .smtpSave ordinarySave] := by
  have h : Orderly (step fun _ => (30 : ℤ)) KeepsSaves Sys.boot
      [.webModuleInit, .smtpModuleInit, .smtpClientInit, .clearSettings, .smtpSave ordinarySave] := by
    refine .cons rfl trivial (.cons rfl trivial (.cons rfl rfl (.cons rfl rfl (.cons rfl ?_ trivial))))
    intro r w hp
    obtain ⟨rfl, rfl⟩ := Params.all_inj (ordinarySave_params.symm.trans hp)
    exact ⟨ordinarySave_taken, fun _ _ hn => absurd hn (by simp [Sys.boot])⟩
  exact ⟨h, saved_of_orderly _ _ h⟩

/-- **A save that is answered before the thread has run is cleared away.** -/
theorem early_save_lost :
    ¬ Upholds (step fun _ => (30 : ℤ)) (LastKept fun _ => (30 : ℤ)) Sys.boot
      [.webModuleInit, .smtpModuleInit, .smtpSave ordinarySave, .smtpClientInit] := by
  intro h
  have hkept := h.exec rfl
  have hholds := (hkept (saveOf (text "secret")) (text "30") rfl).2
  exact absurd hholds.domain (by simp [smtpClientInit, Store.cleared])

/-! ## Mails -/

/-- **A mail is tried on a configured session only**, and so no null pointer is followed, whatever the network does
and whichever requests run meanwhile. -/
def MailsConfigured [LT F] [DecidableLT F] (s : Sys F) (e : Ev F) (_ : Sys F) : Prop :=
  match e with
  | .round curTemp content _ => mails curTemp (cooled s.device) = true →
      s.device.session.Configured ∧
        ∀ (σ : Type) (net : Dialogue.Net σ) (web : Web) (files : List UInt8 → Option (List UInt8)) (env : σ),
          (smtpSendMail net web files smtpSubject content (World.start (cooled s.device).store env)).1.fault = false
  | _ => True

/-- **The order that keeps the thread safe**: once it is in its loop, mails are enabled only when the session is
configured, and a save has a port or finds one. -/
def EnablesConfigured (s : Sys F) (e : Ev F) : Prop :=
  s.thread = .looping →
    match e with
    | .smtpEnable => s.device.session.Configured
    | .smtpSave items => ∀ r w, saveParams items = .all r w →
        r.serverPort ≠ [] ∨ s.device.session.serverPort.isSome = true
    | _ => True

/-- The port that is read back is empty only if it was. -/
theorem copied_port {r : Save} (h0 : NulFree r) (mem : ℤ → UInt8) (hp : r.serverPort ≠ []) :
    cstr (copied mem r) serverPortAt ≠ [] := by
  obtain ⟨c, s, hc⟩ := List.exists_cons_of_ne_nil hp
  have hne : c ≠ 0 := fun h => h0.serverPort (by rw [hc, h]; exact List.mem_cons_self)
  have hcell : copied mem r serverPortAt = c := by
    unfold copied
    rw [store_outside _ _ _ (Or.inl (by decide)), store_outside _ _ _ (Or.inl (by decide)),
      store_outside _ _ _ (Or.inl (by decide)), hc]
    have hat : At (store (store mem serverAddrAt (r.serverAddr ++ [0])) serverPortAt (c :: s ++ [0])) serverPortAt
        (c :: (s ++ [0])) := at_store _ _ _
    exact hat.1
  rw [Ne, cstr_eq_nil, hcell]
  exact hne

theorem dropReceiver_port (d : Device F) : d.dropReceiver.session.serverPort = d.session.serverPort := by
  unfold Device.dropReceiver
  split_ifs
  · exact smtpDeleteReceiver_port d.store (cstr d.mem receiverAt)
  · rfl

/-- **A save configures the session**, of whatever length its values are, when it has a port or finds one. -/
theorem saved_configured {r : Save} (h0 : NulFree r) (atof : List UInt8 → F) (w : List UInt8) {d : Device F}
    (hport : r.serverPort ≠ [] ∨ d.session.serverPort.isSome = true) : (saved atof r w d).session.Configured := by
  have hsession : (saved atof r w d).session =
      (Device.configure r { d.dropReceiver with mem := copied d.dropReceiver.mem r }).store.session := rfl
  rw [hsession, configure_store]
  apply configure_configured _ _ _ _ _ _
  rcases hport with hport | hport
  · exact Or.inl (copied_port h0 _ hport)
  · refine Or.inr ?_
    rw [← dropReceiver_port d] at hport
    exact hport

/-- Mails are enabled on a configured session only. -/
def GuardInv (s : Sys F) : Prop := s.thread = .looping → s.device.mem enableAt ≠ 0 → s.device.session.Configured

theorem Configured.congr {s t : SmtpSession} (h : s.Configured)
    (ht : ∃ subject body fd, t = { s with subject := subject, body := body, connFd := fd }) : t.Configured := by
  obtain ⟨x, y, z, rfl⟩ := ht
  exact ⟨h.port, h.domain, h.receivers⟩

section Runs

variable [LT F] [DecidableLT F] {atof : List UInt8 → F}

/-- Where a mail is tried, mails are enabled. -/
theorem mailsConfigured {s : Sys F} {e : Ev F} {t : Sys F} (h : GuardInv s) (hs : Stepped atof s t e) :
    MailsConfigured s e t := by
  cases hs with
  | webModuleInit _ | smtpModuleInit _ _ | smtpClientInit _ _ | clearSettings _ _ | smtpSave _ _ _ _ | smtpEnable _
  | smtpDisable _ => trivial
  | round hloop _ =>
    intro hmails
    have henabled : (cooled s.device).mem enableAt ≠ 0 := by
      simp only [mails, Bool.and_eq_true, decide_eq_true_eq] at hmails
      exact hmails.1.1
    rw [cooled_mem _ (Or.inl (by decide))] at henabled
    have hconf := h hloop henabled
    refine ⟨hconf, fun σ net web files env => sendMail_noFault net web files _ _ ?_ env⟩
    rw [store_session, cooled_session]
    exact hconf

/-- **One step** of an order that keeps the thread safe. -/
theorem guardInv_step (s : Sys F) (e : Ev F) (t : Sys F) (h : GuardInv s) (hg : EnablesConfigured s e)
    (hs : step atof s e = some t) : MailsConfigured s e t ∧ GuardInv t := by
  have hstep := stepped hs
  refine ⟨mailsConfigured h hstep, ?_⟩
  cases hstep with
  | webModuleInit ht =>
    subst ht
    exact h
  | smtpModuleInit _ ht =>
    subst ht
    intro hloop
    exact absurd hloop (by simp)
  | smtpClientInit _ ht =>
    subst ht
    intro hloop
    exact absurd hloop (by simp)
  | clearSettings _ ht =>
    subst ht
    intro _ henabled
    exact absurd rfl henabled
  | smtpSave r w hp ht =>
    subst ht
    intro hloop _
    exact saved_configured (saveParams_nulFree hp) atof w (hg hloop r w hp)
  | smtpEnable ht =>
    subst ht
    intro hloop _
    exact hg hloop
  | smtpDisable ht =>
    subst ht
    intro _ henabled
    have hzero : Function.update s.device.mem enableAt 0 enableAt = 0 := Function.update_self _ _ _
    exact absurd hzero henabled
  | round hloop ht =>
    subst ht
    intro _ henabled
    rw [threadRound_mem _ _ _ _ (Or.inl (by decide))] at henabled
    exact Configured.congr (h hloop henabled) (threadRound_session _ _ _ _)

/-- **No mail is tried unconfigured**, in every run in which nothing is enabled before there is a port. -/
theorem mailed_configured [Zero F] (atof : List UInt8 → F) (events : List (Ev F))
    (h : Orderly (step atof) EnablesConfigured Sys.boot events) :
    Along (step atof) MailsConfigured Sys.boot events :=
  along_of_orderly guardInv_step (fun hloop => absurd hloop (by simp [Sys.boot])) h

end Runs

/-- There is a save behind the start-up, and then it is warm. -/
theorem mailed_configured_once :
    Orderly (step fun _ => (30 : ℤ)) EnablesConfigured Sys.boot
        [.webModuleInit, .smtpModuleInit, .smtpClientInit, .clearSettings, .smtpSave ordinarySave,
          .round 31 (text "31") 5] ∧
      Along (step fun _ => (30 : ℤ)) MailsConfigured Sys.boot
        [.webModuleInit, .smtpModuleInit, .smtpClientInit, .clearSettings, .smtpSave ordinarySave,
          .round 31 (text "31") 5] := by
  have h : Orderly (step fun _ => (30 : ℤ)) EnablesConfigured Sys.boot
      [.webModuleInit, .smtpModuleInit, .smtpClientInit, .clearSettings, .smtpSave ordinarySave,
        .round 31 (text "31") 5] := by
    refine .cons rfl (fun _ => trivial) (.cons rfl (fun _ => trivial) (.cons rfl (fun _ => trivial)
      (.cons rfl (fun _ => trivial) (.cons rfl ?_ (.cons rfl (fun _ => trivial) trivial)))))
    intro _ r w hp
    obtain ⟨rfl, rfl⟩ := Params.all_inj (ordinarySave_params.symm.trans hp)
    exact Or.inl (by decide)
  exact ⟨h, mailed_configured _ _ h⟩

/-- **Mails are enabled behind the start-up, and the first one has no port.** -/
theorem enabled_without_port :
    ¬ Along (step fun _ => (30 : ℤ)) MailsConfigured Sys.boot
      [.webModuleInit, .smtpModuleInit, .smtpClientInit, .clearSettings, .smtpEnable, .round 25 (text "25") 5] := by
  intro h
  have hround := Along.last ([.webModuleInit, .smtpModuleInit, .smtpClientInit, .clearSettings, .smtpEnable] :
    List (Ev ℤ)) h rfl rfl
  have hconf := (hround (by decide)).1
  exact absurd hconf.port (by decide)

end W601.App
