import W601.Web.Settings
import W601.Json.CJson

/-!
# The settings go out again (`cgi_smtp_get_data`)

`json_create_smtp_data` prints the settings as a JSON object, and `cgi_smtp_get_data` gives the text to
`webnet_session_printf` as its format.

* `parse_members`: the text decodes to the settings.
* `sent_noMark`: without `%` in the settings the text is sent as it is.
* `round_trips_iff`: the settings come back exactly when there is no `%` in them.
-/

namespace W601.Settings

open CMem Smtp Json Printf

variable {F : Type}

/-! ## The answer -/

/-- `%.2f` of a temperature; it prints digits, a sign and a point, or the name of a value that is not finite. -/
structure Print2f (F : Type) where
  print : F → List UInt8
  nulFree : ∀ x, 0 ∉ print x
  noMark : ∀ x, 37 ∉ print x

/-- The members of `json_create_smtp_data`. -/
def smtpMembers (m : SmtpModule) (tempWarn : List UInt8) (enable : ℕ) : List (List UInt8 × Item) :=
  [(text "server_addr", .string m.serverAddr), (text "server_port", .string m.serverPort),
    (text "username", .string m.username), (text "password", .string m.password),
    (text "receiver", .string m.receiver), (text "temp_warn", .string tempWarn), (text "enable", .number enable)]

/-- `json_create_smtp_data`; the buffer of the temperature has ten bytes. -/
def jsonCreateSmtpData (fmt : Print2f F) (d : Device F) : List UInt8 :=
  printObject (smtpMembers (strings d.mem) ((fmt.print d.tempWarn).take 9) (d.mem enableAt).toNat)

/-- `WEBNET_SESSION_BUFSZ`. -/
def sessionBufSize : ℕ := 4096

/-- `webnet_session_printf` with a format only: what is sent is the output, as long as it is shorter than the size
given to `vsnprintf`. -/
def WebnetSessionPrintf (fmt sent : List UInt8) : Prop :=
  ∃ o, Prints 37 fmt o ∧ (o.length < sessionBufSize - 1 → sent = o)

/-- **The body is a JSON document with the settings.** -/
def Decodes (r : Save) (sent : List UInt8) : Prop :=
  ∃ ms, cJSONParse sent = some (.object ms) ∧
    ms.lookup (text "server_addr") = some (.string r.serverAddr) ∧
    ms.lookup (text "server_port") = some (.string r.serverPort) ∧
    ms.lookup (text "username") = some (.string r.username) ∧
    ms.lookup (text "password") = some (.string r.password) ∧
    ms.lookup (text "receiver") = some (.string r.receiver)

/-- **The settings come back**: `cgi_smtp_save` is answered, and whatever `cgi_smtp_get_data` sends behind it decodes
to the settings. -/
def RoundTrips (atof : List UInt8 → F) (fmt : Print2f F) (items : List QueryItem) (r : Save) (d : Device F) : Prop :=
  ∃ t, cgiSmtpSave atof items d = .ok codeOk t ∧
    ∀ sent, WebnetSessionPrintf (jsonCreateSmtpData fmt t) sent → Decodes r sent

/-- No setting has a `%`. -/
structure NoMark (r : Save) : Prop where
  serverAddr : 37 ∉ r.serverAddr
  serverPort : 37 ∉ r.serverPort
  username : 37 ∉ r.username
  password : 37 ∉ r.password
  receiver : 37 ∉ r.receiver

/-! ## The text -/

/-- The settings as they are kept. -/
def moduleOf (r : Save) : SmtpModule := ⟨r.serverAddr, r.serverPort, r.username, r.password, r.receiver⟩

/-- The settings as `printf` may leave them. -/
def thinned (r : Save) : Save where
  serverAddr := thin 37 r.serverAddr
  serverPort := thin 37 r.serverPort
  username := thin 37 r.username
  password := thin 37 r.password
  receiver := thin 37 r.receiver

theorem thinned_nulFree {r : Save} (h0 : NulFree r) : NulFree (thinned r) where
  serverAddr := thin_nulFree h0.serverAddr
  serverPort := thin_nulFree h0.serverPort
  username := thin_nulFree h0.username
  password := thin_nulFree h0.password
  receiver := thin_nulFree h0.receiver

/-- What holds of all members holds of each. -/
theorem forall_members {P : List UInt8 × Item → Prop} {m : SmtpModule} {w : List UInt8} {n : ℕ}
    (hstr : ∀ name ∈ [text "server_addr", text "server_port", text "username", text "password", text "receiver",
      text "temp_warn"], ∀ s ∈ [m.serverAddr, m.serverPort, m.username, m.password, m.receiver, w], P (name, .string s))
    (hnum : P (text "enable", .number n)) : ∀ k ∈ smtpMembers m w n, P k := by
  intro k hk
  simp only [smtpMembers, List.mem_cons, List.not_mem_nil, or_false] at hk
  rcases hk with rfl | rfl | rfl | rfl | rfl | rfl | rfl
  · exact hstr _ (by simp) _ (by simp)
  · exact hstr _ (by simp) _ (by simp)
  · exact hstr _ (by simp) _ (by simp)
  · exact hstr _ (by simp) _ (by simp)
  · exact hstr _ (by simp) _ (by simp)
  · exact hstr _ (by simp) _ (by simp)
  · exact hnum

/-- The names of the members. -/
theorem names_plain : ∀ name ∈ [text "server_addr", text "server_port", text "username", text "password",
    text "receiver", text "temp_warn"], 0 ∉ name ∧ 37 ∉ name := by
  decide

theorem names_length : ∀ name ∈ [text "server_addr", text "server_port", text "username", text "password",
    text "receiver", text "temp_warn"], name.length ≤ 11 := by
  decide

theorem forall_strings {P : List UInt8 → Prop} {r : Save} {w : List UInt8} (h1 : P r.serverAddr) (h2 : P r.serverPort)
    (h3 : P r.username) (h4 : P r.password) (h5 : P r.receiver) (h6 : P w) :
    ∀ s ∈ [(moduleOf r).serverAddr, (moduleOf r).serverPort, (moduleOf r).username, (moduleOf r).password,
      (moduleOf r).receiver, w], P s := by
  simp only [List.forall_mem_cons, List.not_mem_nil, IsEmpty.forall_iff, implies_true, and_true]
  exact ⟨h1, h2, h3, h4, h5, h6⟩

section Text

variable {r : Save} {w : List UInt8} (h0 : NulFree r) (hw : 0 ∉ w)
include h0 hw

theorem strings_nulFree : ∀ s ∈ [(moduleOf r).serverAddr, (moduleOf r).serverPort, (moduleOf r).username,
    (moduleOf r).password, (moduleOf r).receiver, w], 0 ∉ s :=
  forall_strings h0.serverAddr h0.serverPort h0.username h0.password h0.receiver hw

/-- **The text decodes to the settings.** -/
theorem parse_members : Decodes r (printObject (smtpMembers (moduleOf r) w 1)) := by
  refine ⟨_, parse_print (by simp [smtpMembers]) ?_ fun n => ?_, rfl, rfl, rfl, rfl, rfl⟩
  · exact forall_members (P := fun m => 0 ∉ m.1) (fun name hn s _ => (names_plain name hn).1)
      (show 0 ∉ text "enable" by decide)
  · exact forall_members (P := fun m => Reads (parseValue (n + 1)) m.2)
      (fun _ _ s hs => reads_string (strings_nulFree h0 hw s hs) n) (reads_one n)

/-- What `printf` may leave of the text decodes to what it may leave of the settings. -/
theorem thin_members (hw' : 37 ∉ w) :
    thin 37 (printObject (smtpMembers (moduleOf r) w 1)) = printObject (smtpMembers (moduleOf (thinned r)) w 1) := by
  have hself : thin 37 w = w := thin_self hw'
  have h := thin_printObject (smtpMembers (moduleOf r) w 1)
    (forall_members (P := fun m => 0 ∉ m.1) (fun name hn s _ => (names_plain name hn).1)
      (show 0 ∉ text "enable" by decide))
    (forall_members (P := fun m => 37 ∉ m.1) (fun name hn s _ => (names_plain name hn).2)
      (show 37 ∉ text "enable" by decide))
    (forall_members (P := fun m => m.2.Printable) (fun _ _ s hs => strings_nulFree h0 hw s hs)
      (show 37 ∉ text (toString 1) by decide))
  rw [h]
  simp only [smtpMembers, List.map_cons, List.map_nil, Item.thin, hself]
  rfl

/-- The text of settings that fit is shorter than the buffer. -/
theorem members_length (hs : Short r) (hw9 : w.length ≤ 9) {n : ℕ} (hn : (text (toString n)).length ≤ 3) :
    (printObject (smtpMembers (moduleOf r) w n)).length < sessionBufSize - 1 := by
  obtain ⟨s1, s2, s3, s4, s5⟩ := hs
  have k1 := printString_length h0.serverAddr
  have k2 := printString_length h0.serverPort
  have k3 := printString_length h0.username
  have k4 := printString_length h0.password
  have k5 := printString_length h0.receiver
  have k6 := printString_length hw
  have hname : ∀ m ∈ smtpMembers (moduleOf r) w n, (printString m.1).length ≤ 68 := by
    refine forall_members (P := fun m => (printString m.1).length ≤ 68) (fun name hname _ _ => ?_) ?_
    · have h1 := printString_length (names_plain name hname).1
      have h2 := names_length name hname
      show (printString name).length ≤ 68
      omega
    · have h1 := printString_length (s := text "enable") (by decide)
      have h2 : (text "enable").length = 6 := by decide
      show (printString (text "enable")).length ≤ 68
      omega
  have hlen := printObject_length_le hname
  simp only [smtpMembers, moduleOf, List.map_cons, List.map_nil, List.sum_cons, List.sum_nil, List.length_cons,
    List.length_nil, Item.print] at hlen
  unfold sessionBufSize
  apply lt_of_le_of_lt hlen
  omega

end Text

/-! ## The request and the answer -/

theorem saved_strings {r : Save} (hs : Short r) (h0 : NulFree r) (atof : List UInt8 → F) (w : List UInt8)
    (d : Device F) : strings (saved atof r w d).mem = moduleOf r := by
  rw [saved_mem, strings_enable]
  exact strings_copied hs h0 d.mem

theorem saved_enable (atof : List UInt8 → F) (r : Save) (w : List UInt8) (d : Device F) :
    ((saved atof r w d).mem enableAt).toNat = 1 := by
  rw [saved_mem, Function.update_self]
  rfl

theorem saved_tempWarn (atof : List UInt8 → F) (r : Save) (w : List UInt8) (d : Device F) :
    (saved atof r w d).tempWarn = atof w := rfl

/-- The text behind a save. -/
theorem jsonCreateSmtpData_saved {r : Save} (hs : Short r) (h0 : NulFree r) (atof : List UInt8 → F) (fmt : Print2f F)
    (w : List UInt8) (d : Device F) :
    jsonCreateSmtpData fmt (saved atof r w d) =
      printObject (smtpMembers (moduleOf r) ((fmt.print (atof w)).take 9) 1) := by
  unfold jsonCreateSmtpData
  rw [saved_strings hs h0, saved_enable, saved_tempWarn]

/-- **Without `%` the text is sent as it is.** -/
theorem sent_noMark {r : Save} {w : List UInt8} (hs : Short r) (h0 : NulFree r) (hp : NoMark r) (hw : 0 ∉ w)
    (hw' : 37 ∉ w) (hw9 : w.length ≤ 9) {sent : List UInt8}
    (h : WebnetSessionPrintf (printObject (smtpMembers (moduleOf r) w 1)) sent) :
    sent = printObject (smtpMembers (moduleOf r) w 1) := by
  have hplain : 37 ∉ printObject (smtpMembers (moduleOf r) w 1) := by
    refine printObject_noMark ?_ ?_
    · exact forall_members (P := fun m => 37 ∉ printString m.1)
        (fun name hn _ _ => printString_noMark (names_plain name hn).1 (names_plain name hn).2)
        (printString_noMark (s := text "enable") (by decide) (by decide))
    · refine forall_members (P := fun m => 37 ∉ m.2.print) (fun _ _ s hs => ?_) (show 37 ∉ text (toString 1) by decide)
      exact printString_noMark (strings_nulFree h0 hw s hs)
        (forall_strings (P := fun s => 37 ∉ s) hp.serverAddr hp.serverPort hp.username hp.password hp.receiver hw' s hs)
  obtain ⟨o, ho, hsent⟩ := h
  obtain rfl := prints_eq hplain ho
  exact hsent (members_length h0 hw hs hw9 (by decide))

/-- A body decodes to one tuple of settings only. -/
theorem Decodes.unique {r r' : Save} {sent : List UInt8} (h : Decodes r sent) (h' : Decodes r' sent) : r = r' := by
  obtain ⟨ms, hparse, k1, k2, k3, k4, k5⟩ := h
  obtain ⟨ms', hparse', j1, j2, j3, j4, j5⟩ := h'
  obtain rfl : ms = ms' := Value.object.inj (Option.some.inj (hparse.symm.trans hparse'))
  have hone : ∀ {o : Option Value} {s s' : List UInt8}, o = some (.string s) → o = some (.string s') → s = s' :=
    fun h h' => Value.string.inj (Option.some.inj (h.symm.trans h'))
  obtain ⟨a, b, c, e, f⟩ := r
  rw [Save.mk.injEq]
  exact ⟨hone k1 j1, hone k2 j2, hone k3 j3, hone k4 j4, hone k5 j5⟩

/-- Settings that lose nothing have no `%`. -/
theorem noMark_of_thinned {r : Save} (h : r = thinned r) : NoMark r := by
  have hkept : ∀ {s : List UInt8}, s = thin 37 s → 37 ∉ s := by
    intro s hs hmem
    have hlt := thin_length_lt hmem
    rw [← hs] at hlt
    exact lt_irrefl _ hlt
  exact ⟨hkept (congrArg Save.serverAddr h), hkept (congrArg Save.serverPort h), hkept (congrArg Save.username h),
    hkept (congrArg Save.password h), hkept (congrArg Save.receiver h)⟩

section RoundTrip

variable {atof : List UInt8 → F} {fmt : Print2f F} {items : List QueryItem} {r : Save} {w : List UInt8} {d : Device F}
  (hparams : saveParams items = .all r w) (hfits : r.fits = true)
include hparams hfits

/-- The text that is sent, and what is known of the text of the temperature in it. -/
theorem answer_behind_save (atof : List UInt8 → F) (fmt : Print2f F) (d : Device F) :
    ∃ x : List UInt8, 0 ∉ x ∧ 37 ∉ x ∧ x.length ≤ 9 ∧
      jsonCreateSmtpData fmt (saved atof r w d) = printObject (smtpMembers (moduleOf r) x 1) :=
  ⟨(fmt.print (atof w)).take 9, fun h => fmt.nulFree _ (List.mem_of_mem_take h),
    fun h => fmt.noMark _ (List.mem_of_mem_take h), List.length_take_le _ _,
    jsonCreateSmtpData_saved (fits_iff.1 hfits) (saveParams_nulFree hparams) atof fmt w d⟩

theorem noMark_of_roundTrips (h : RoundTrips atof fmt items r d) : NoMark r := by
  have h0 := saveParams_nulFree hparams
  obtain ⟨x, hx0, hx37, -, hjson⟩ := answer_behind_save hparams hfits atof fmt d
  obtain ⟨t, ht, hsent⟩ := h
  rw [cgiSmtpSave_all hparams] at ht
  obtain rfl : saved atof r w d = t := (EStateM.Result.ok.inj ht).2
  rw [hjson] at hsent
  -- one of the texts that may be sent is the print of other settings
  have hdec := hsent (thin 37 (printObject (smtpMembers (moduleOf r) x 1))) ⟨_, prints_thin _, fun _ => rfl⟩
  rw [thin_members h0 hx0 hx37] at hdec
  exact noMark_of_thinned (hdec.unique (parse_members (thinned_nulFree h0) hx0))

theorem roundTrips_of_noMark (hp : NoMark r) : RoundTrips atof fmt items r d := by
  have h0 := saveParams_nulFree hparams
  obtain ⟨x, hx0, hx37, hx9, hjson⟩ := answer_behind_save hparams hfits atof fmt d
  refine ⟨saved atof r w d, cgiSmtpSave_all hparams d, fun sent h => ?_⟩
  rw [hjson] at h
  rw [sent_noMark (fits_iff.1 hfits) h0 hp hx0 hx37 hx9 h]
  exact parse_members h0 hx0

end RoundTrip

/-- **The settings come back exactly when there is no `%` in them.** -/
theorem round_trips_iff (atof : List UInt8 → F) (fmt : Print2f F) {items : List QueryItem} {r : Save} {w : List UInt8}
    (hparams : saveParams items = .all r w) (hfits : r.fits = true) (d : Device F) :
    RoundTrips atof fmt items r d ↔ NoMark r :=
  ⟨noMark_of_roundTrips hparams hfits, roundTrips_of_noMark hparams hfits⟩

/-- A save with a given password. -/
def saveWith (password : List UInt8) (h : 0 ∉ password) : List QueryItem :=
  [⟨text "server_addr", some (text "smtp.qq.com"), by decide⟩, ⟨text "server_port", some (text "25"), by decide⟩,
    ⟨text "username", some (text "w601"), by decide⟩, ⟨text "password", some password, by simpa using h⟩,
    ⟨text "receiver", some (text "home"), by decide⟩, ⟨text "temp_warn", some (text "30"), by decide⟩]

/-- The settings of `saveWith`. -/
def saveOf (password : List UInt8) : Save := ⟨text "smtp.qq.com", text "25", text "w601", password, text "home"⟩

/-- The print of thirty degrees. -/
def thirty : Print2f ℕ where
  print _ := text "30.00"
  nulFree _ := by decide
  noMark _ := by decide

theorem round_trips_secret :
    saveParams (saveWith (text "secret") (by decide)) = .all (saveOf (text "secret")) (text "30") ∧
      (saveOf (text "secret")).fits = true ∧
      RoundTrips (fun _ => 30) thirty (saveWith (text "secret") (by decide)) (saveOf (text "secret")) .boot := by
  have hparams : saveParams (saveWith (text "secret") (by decide)) = .all (saveOf (text "secret")) (text "30") := rfl
  have hfits : (saveOf (text "secret")).fits = true := by decide
  refine ⟨hparams, hfits, (round_trips_iff _ thirty hparams hfits .boot).2 ?_⟩
  exact ⟨by decide, by decide, by decide, by decide, by decide⟩

/-- **A password with `%%` comes back with one `%`.** -/
theorem percents_not_kept :
    ¬ RoundTrips (fun _ => 30) thirty (saveWith (text "50%%") (by decide)) (saveOf (text "50%%")) .boot := by
  intro h
  have hparams : saveParams (saveWith (text "50%%") (by decide)) = .all (saveOf (text "50%%")) (text "30") := rfl
  have hmark := (noMark_of_roundTrips hparams (by decide) h).password
  revert hmark
  decide

end W601.Settings
