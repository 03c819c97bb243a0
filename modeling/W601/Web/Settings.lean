import W601.Smtp.Config
import W601.Board.Led

/-!
# The settings behind the web requests (`web_module.c`, `smtp_module.c`)

The handlers of `smtp_save` and `led_toggle` over the memory in which `w601_smtp` lies: `strcpy` writes as many cells
as its source has. A string function that is given a null pointer ends the handler where it stands. The handlers
answer only with `code` 0.

* `saved_refines`: a request whose values are all there and fit does to the strings what `Smtp.smtpDataConfig` does.
* `settings_kept_iff`: a request keeps to its own fields exactly when the parameters that are used are there and fit.
-/

namespace W601.Settings

open CMem Smtp

/-! ## The parameters of a request -/

/-- A `webnet_query_item`; the value is a null pointer where the item has no `=`. -/
structure QueryItem where
  name : List UInt8
  value : Option (List UInt8)
  nulFree : ∀ v ∈ value, 0 ∉ v

/-- `webnet_request_get_query`. -/
def webnetRequestGetQuery (items : List QueryItem) (name : String) : Option (List UInt8) :=
  (items.find? fun q => (text name).isPrefixOf q.name ∧ (text name).length = q.name.length).bind QueryItem.value

theorem webnetRequestGetQuery_nulFree {items : List QueryItem} {name : String} {v : List UInt8}
    (h : webnetRequestGetQuery items name = some v) : 0 ∉ v := by
  obtain ⟨q, -, hv⟩ := Option.bind_eq_some_iff.1 h
  exact q.nulFree v hv

/-- The parameters of `smtp_data_config`. -/
structure Params where
  serverAddr : Option (List UInt8)
  serverPort : Option (List UInt8)
  username : Option (List UInt8)
  password : Option (List UInt8)
  receiver : Option (List UInt8)
  tempWarn : Option (List UInt8)

/-- The parameters that `cgi_smtp_save` takes from a request. -/
def saveParams (items : List QueryItem) : Params where
  serverAddr := webnetRequestGetQuery items "server_addr"
  serverPort := webnetRequestGetQuery items "server_port"
  username := webnetRequestGetQuery items "username"
  password := webnetRequestGetQuery items "password"
  receiver := webnetRequestGetQuery items "receiver"
  tempWarn := webnetRequestGetQuery items "temp_warn"

/-- All parameters are there. -/
def Params.all (r : Save) (tempWarn : List UInt8) : Params :=
  ⟨some r.serverAddr, some r.serverPort, some r.username, some r.password, some r.receiver, some tempWarn⟩

theorem Params.all_inj {r r' : Save} {w w' : List UInt8} (h : Params.all r w = .all r' w') : r = r' ∧ w = w' := by
  obtain ⟨h1, h2, h3, h4, h5, h6⟩ := Params.mk.inj h
  obtain ⟨_, _, _, _, _⟩ := r
  rw [Save.mk.injEq]
  exact ⟨⟨Option.some.inj h1, Option.some.inj h2, Option.some.inj h3, Option.some.inj h4, Option.some.inj h5⟩,
    Option.some.inj h6⟩

/-! ## The memory -/

/-- `&w601_smtp.enable`; addresses count from `&w601_smtp`. -/
def enableAt : ℤ := 0

/-- `w601_smtp.server_addr`, behind `cold_time` at 4. -/
def serverAddrAt : ℤ := 8

/-- `w601_smtp.server_port`. -/
def serverPortAt : ℤ := 108

/-- `w601_smtp.username`. -/
def usernameAt : ℤ := 118

/-- `w601_smtp.password`. -/
def passwordAt : ℤ := 168

/-- `w601_smtp.receiver`. -/
def receiverAt : ℤ := 218

/-- The end of `w601_smtp.receiver`. -/
def receiverEnd : ℤ := 318

/-- The bytes of RAM; no string is longer. -/
def ramSize : ℕ := 288 * 1024

/-- The C string at an address. -/
def cstr (mem : ℤ → UInt8) (i : ℤ) : List UInt8 := readStr mem ramSize i

/-- What the requests can change. -/
structure Device (F : Type) where
  /-- The memory around `w601_smtp`. -/
  mem : ℤ → UInt8
  /-- `smtp_session`. -/
  session : SmtpSession
  /-- The identity of the next allocation. -/
  nextId : ℕ
  /-- The allocations that have been freed. -/
  freed : List ℕ
  /-- `w601.aht10_data.temp_warn`. -/
  tempWarn : F
  board : Led.Board

variable {F : Type}

/-- The strings of `w601_smtp`. -/
def strings (mem : ℤ → UInt8) : SmtpModule :=
  ⟨cstr mem serverAddrAt, cstr mem serverPortAt, cstr mem usernameAt, cstr mem passwordAt, cstr mem receiverAt⟩

/-- The globals as the SMTP client sees them, with the strings for their memory. -/
def Device.store (d : Device F) : Store := ⟨d.session, strings d.mem, d.nextId, d.freed, false⟩

/-- The session and the heap after a function of the SMTP client. -/
def Device.client (d : Device F) (m : Store) : Device F :=
  { d with session := m.session, nextId := m.nextId, freed := m.freed }

/-! ## The handlers -/

/-- A handler; it ends with an error where a string function is given a null pointer. -/
abbrev Handler (F : Type) := EStateM Unit (Device F)

/-- `strcpy` into `w601_smtp`. -/
def strcpy (dst : ℤ) (src : Option (List UInt8)) : Handler F Unit :=
  match src with
  | none => throw ()
  | some s => modify fun d => { d with mem := store d.mem dst (s ++ [0]) }

/-- `smtp_add_receiver`, which looks for the null pointer. -/
def addReceiver (receiver : Option (List UInt8)) : Handler F Unit :=
  match receiver with
  | none => pure ()
  | some a => modify fun d => d.client (smtpAddReceiver d.store a)

/-- The assignment of `atof` to the temperature limit. -/
def setTempWarn (atof : List UInt8 → F) (tempWarn : Option (List UInt8)) : Handler F Unit :=
  match tempWarn with
  | none => throw ()
  | some w => modify fun d => { d with tempWarn := atof w }

/-- `smtp_data_config`. -/
def smtpDataConfig (atof : List UInt8 → F) (p : Params) : Handler F Unit := do
  modify fun d =>
    if d.mem receiverAt ≠ 0 then d.client (smtpDeleteReceiver d.store (cstr d.mem receiverAt)).1 else d
  strcpy serverAddrAt p.serverAddr
  strcpy serverPortAt p.serverPort
  strcpy usernameAt p.username
  strcpy passwordAt p.password
  strcpy receiverAt p.receiver
  modify fun d => d.client (smtpSetServerAddr d.store (cstr d.mem serverAddrAt) true (cstr d.mem serverPortAt)).1
  modify fun d => d.client (smtpSetAuth d.store (cstr d.mem usernameAt) (cstr d.mem passwordAt)).1
  addReceiver p.receiver
  setTempWarn atof p.tempWarn

/-- `smtp_enable`. -/
def smtpEnable : Handler F Unit := modify fun d => { d with mem := Function.update d.mem enableAt 1 }

/-- `smtp_disable`. -/
def smtpDisable : Handler F Unit := modify fun d => { d with mem := Function.update d.mem enableAt 0 }

/-- The answer of the handlers. -/
def codeOk : List UInt8 := text "\x7b\"code\":0\x7d"

/-- `cgi_smtp_save`. -/
def cgiSmtpSave (atof : List UInt8 → F) (items : List QueryItem) : Handler F (List UInt8) := do
  smtpDataConfig atof (saveParams items)
  smtpEnable
  return codeOk

/-- `cgi_led_toggle`. -/
def cgiLedToggle (items : List QueryItem) : Handler F (List UInt8) := do
  let d ← get
  match Led.cgiLedToggle (webnetRequestGetQuery items "id") (webnetRequestGetQuery items "status") d.board with
  | none => throw ()
  | some b => set { d with board := b }
  return codeOk

/-! ## What a request may do -/

/-- A string in a field of `size` cells, with its terminator. -/
def FieldAt (mem : ℤ → UInt8) (i : ℤ) (size : ℕ) (s : List UInt8) : Prop := StrAt mem i s ∧ s.length < size

/-- **The values are stored in their fields** and nothing else is touched: `enable` is 1, the cells before
`server_addr` and behind `receiver` are as they were (`cold_time` among them), and the session is the one that
belongs to the values. -/
structure Stored (atof : List UInt8 → F) (r : Save) (tempWarn : List UInt8) (d t : Device F) : Prop where
  serverAddr : FieldAt t.mem serverAddrAt 100 r.serverAddr
  serverPort : FieldAt t.mem serverPortAt 10 r.serverPort
  username : FieldAt t.mem usernameAt 50 r.username
  password : FieldAt t.mem passwordAt 50 r.password
  receiver : FieldAt t.mem receiverAt 100 r.receiver
  enable : t.mem enableAt = 1
  frame : ∀ i, i ≠ enableAt → i < serverAddrAt ∨ receiverEnd ≤ i → t.mem i = d.mem i
  session : t.store = Smtp.smtpDataConfig d.store r
  tempWarn : t.tempWarn = atof tempWarn
  board : t.board = d.board

/-- **The LED that is named is written**, and nothing else. -/
structure Toggled (id : List UInt8) (d t : Device F) : Prop where
  others : ∀ led : Led.LedId, id ≠ text led.id → t.board.pin led = d.board.pin led ∧ t.board.rgb led = d.board.rgb led
  named : ∀ led : Led.LedId, id = text led.id → t.board.pin led = some Led.ledOn ∨ t.board.pin led = some Led.ledOff
  rest : t = { d with board := t.board }

/-- The requests. -/
inductive Request where
  | smtpSave (items : List QueryItem)
  | ledToggle (items : List QueryItem)

/-- The handler of a request. -/
def Request.handle (atof : List UInt8 → F) : Request → Handler F (List UInt8)
  | smtpSave items => cgiSmtpSave atof items
  | ledToggle items => cgiLedToggle items

/-- What a request that is accepted does. -/
def Request.Effect (atof : List UInt8 → F) (d t : Device F) : Request → Prop
  | smtpSave items => ∃ r w, saveParams items = .all r w ∧ Stored atof r w d t
  | ledToggle items => ∃ id, webnetRequestGetQuery items "id" = some id ∧ Toggled id d t

/-- **A request does what it may do**: no string function is given a null pointer, and the request is rejected and
changes nothing, or has its effect. -/
def Kept (atof : List UInt8 → F) (q : Request) (d : Device F) : Prop :=
  match q.handle atof d with
  | .error _ _ => False
  | .ok answer t => (answer ≠ codeOk ∧ t = d) ∨ (answer = codeOk ∧ q.Effect atof d t)

/-- The parameters that are used are there, and the strings fit their fields. -/
def Request.Proper : Request → Prop
  | smtpSave items => ∃ r w, saveParams items = .all r w ∧ r.fits
  | ledToggle items => ∃ id, webnetRequestGetQuery items "id" = some id ∧
      ((∃ led : Led.LedId, id = text led.id) → ∃ status, webnetRequestGetQuery items "status" = some status)

/-! ## The parts of a save -/

/-- The memory behind the five `strcpy`. -/
def copied (mem : ℤ → UInt8) (r : Save) : ℤ → UInt8 :=
  let mem := store mem serverAddrAt (r.serverAddr ++ [0])
  let mem := store mem serverPortAt (r.serverPort ++ [0])
  let mem := store mem usernameAt (r.username ++ [0])
  let mem := store mem passwordAt (r.password ++ [0])
  store mem receiverAt (r.receiver ++ [0])

/-- The old receiver is deleted. -/
def Device.dropReceiver (d : Device F) : Device F :=
  if d.mem receiverAt ≠ 0 then d.client (smtpDeleteReceiver d.store (cstr d.mem receiverAt)).1 else d

/-- The session is set from the copies. -/
def Device.configure (r : Save) (d : Device F) : Device F :=
  let d := d.client (smtpSetServerAddr d.store (cstr d.mem serverAddrAt) true (cstr d.mem serverPortAt)).1
  let d := d.client (smtpSetAuth d.store (cstr d.mem usernameAt) (cstr d.mem passwordAt)).1
  d.client (smtpAddReceiver d.store r.receiver)

/-- The device behind a save with all parameters. -/
def saved (atof : List UInt8 → F) (r : Save) (w : List UInt8) (d : Device F) : Device F :=
  let d := Device.configure r { d.dropReceiver with mem := copied d.dropReceiver.mem r }
  { d with tempWarn := atof w, mem := Function.update d.mem enableAt 1 }

theorem cgiSmtpSave_all {atof : List UInt8 → F} {items : List QueryItem} {r : Save} {w : List UInt8}
    (h : saveParams items = .all r w) (d : Device F) :
    cgiSmtpSave atof items d = .ok codeOk (saved atof r w d) := by
  unfold cgiSmtpSave smtpDataConfig
  rw [h]
  rfl

/-- A parameter that is not there ends the handler. -/
theorem cgiSmtpSave_null (atof : List UInt8 → F) {items : List QueryItem}
    (h : ¬ ∃ r w, saveParams items = .all r w) (d : Device F) : ∃ t, cgiSmtpSave atof items d = .error () t := by
  unfold cgiSmtpSave smtpDataConfig
  generalize saveParams items = p at h ⊢
  obtain ⟨a, b, c, e, f, g⟩ := p
  cases a with
  | none => exact ⟨_, rfl⟩
  | some a =>
  cases b with
  | none => exact ⟨_, rfl⟩
  | some b =>
  cases c with
  | none => exact ⟨_, rfl⟩
  | some c =>
  cases e with
  | none => exact ⟨_, rfl⟩
  | some e =>
  cases f with
  | none => exact ⟨_, rfl⟩
  | some f =>
  cases g with
  | none => exact ⟨_, rfl⟩
  | some g => exact absurd ⟨⟨a, b, c, e, f⟩, g, rfl⟩ h

/-- The strings of a request. -/
structure NulFree (r : Save) : Prop where
  serverAddr : 0 ∉ r.serverAddr
  serverPort : 0 ∉ r.serverPort
  username : 0 ∉ r.username
  password : 0 ∉ r.password
  receiver : 0 ∉ r.receiver

theorem saveParams_nulFree {items : List QueryItem} {r : Save} {w : List UInt8} (h : saveParams items = .all r w) :
    NulFree r := by
  obtain ⟨h1, h2, h3, h4, h5, -⟩ := Params.mk.inj h
  exact ⟨webnetRequestGetQuery_nulFree h1, webnetRequestGetQuery_nulFree h2, webnetRequestGetQuery_nulFree h3,
    webnetRequestGetQuery_nulFree h4, webnetRequestGetQuery_nulFree h5⟩

/-- The lengths that fit. -/
structure Short (r : Save) : Prop where
  serverAddr : r.serverAddr.length < 100
  serverPort : r.serverPort.length < 10
  username : r.username.length < 50
  password : r.password.length < 50
  receiver : r.receiver.length < 100

theorem fits_iff {r : Save} : r.fits = true ↔ Short r := by
  unfold Save.fits
  simp only [Bool.and_eq_true, decide_eq_true_eq]
  constructor
  · rintro ⟨⟨⟨⟨h1, h2⟩, h3⟩, h4⟩, h5⟩
    exact ⟨h1, h2, h3, h4, h5⟩
  · rintro ⟨h1, h2, h3, h4, h5⟩
    exact ⟨⟨⟨⟨h1, h2⟩, h3⟩, h4⟩, h5⟩

section Copied

variable {r : Save} (hs : Short r) (h0 : NulFree r) (mem : ℤ → UInt8)
include hs

/-- The copies stay inside of the string fields. -/
theorem copied_outside {i : ℤ} (hi : i < serverAddrAt ∨ receiverEnd ≤ i) : copied mem r i = mem i := by
  obtain ⟨h1, h2, h3, h4, h5⟩ := hs
  have hlen : ∀ (s : List UInt8), ((s ++ [0]).length : ℤ) = s.length + 1 := by simp
  unfold copied
  simp only [serverAddrAt, serverPortAt, usernameAt, passwordAt, receiverAt, receiverEnd] at hi ⊢
  rw [store_outside _ _ _ (by rw [hlen]; omega), store_outside _ _ _ (by rw [hlen]; omega),
    store_outside _ _ _ (by rw [hlen]; omega), store_outside _ _ _ (by rw [hlen]; omega),
    store_outside _ _ _ (by rw [hlen]; omega)]

include h0

/-- **Each copy is left alone by the later ones.** -/
theorem copied_strings :
    StrAt (copied mem r) serverAddrAt r.serverAddr ∧ StrAt (copied mem r) serverPortAt r.serverPort ∧
      StrAt (copied mem r) usernameAt r.username ∧ StrAt (copied mem r) passwordAt r.password ∧
      StrAt (copied mem r) receiverAt r.receiver := by
  obtain ⟨h1, h2, h3, h4, h5⟩ := hs
  unfold copied
  dsimp only [serverAddrAt, serverPortAt, usernameAt, passwordAt, receiverAt]
  refine ⟨?_, ?_, ?_, ?_, strAt_store h0.receiver _ _⟩
  · refine StrAt.store (StrAt.store (StrAt.store (StrAt.store (strAt_store h0.serverAddr _ _) _ ?_) _ ?_) _ ?_) _ ?_
    all_goals exact Or.inl (by omega)
  · refine StrAt.store (StrAt.store (StrAt.store (strAt_store h0.serverPort _ _) _ ?_) _ ?_) _ ?_
    all_goals exact Or.inl (by omega)
  · refine StrAt.store (StrAt.store (strAt_store h0.username _ _) _ ?_) _ ?_
    all_goals exact Or.inl (by omega)
  · exact StrAt.store (strAt_store h0.password _ _) _ (Or.inl (by omega))

/-- What the copies leave to be read. -/
theorem strings_copied :
    strings (copied mem r) = ⟨r.serverAddr, r.serverPort, r.username, r.password, r.receiver⟩ := by
  obtain ⟨k1, k2, k3, k4, k5⟩ := copied_strings hs h0 mem
  obtain ⟨h1, h2, h3, h4, h5⟩ := hs
  have hram : 100 ≤ ramSize := by decide
  unfold strings cstr
  rw [readStr_eq k1 (by omega), readStr_eq k2 (by omega), readStr_eq k3 (by omega), readStr_eq k4 (by omega),
    readStr_eq k5 (by omega)]

end Copied

/-! ## The session -/

theorem cstr_eq_nil {mem : ℤ → UInt8} {i : ℤ} : cstr mem i = [] ↔ mem i = 0 := by
  show readStr mem (294911 + 1) i = [] ↔ _
  rw [readStr]
  split_ifs with h
  · exact ⟨fun _ => h, fun _ => rfl⟩
  · exact ⟨fun h' => absurd h' (by simp), fun h' => absurd h' h⟩

/-- The client's functions leave `w601_smtp` alone. -/
theorem client_store {d : Device F} {m : Store} (h1 : m.w601Smtp = strings d.mem) (h2 : m.overflow = false) :
    (d.client m).store = m := by
  obtain ⟨_, _, _, _, _⟩ := m
  dsimp only at h1 h2
  subst h1 h2
  rfl

theorem smtpDeleteReceiver_module (m : Store) (a : List UInt8) :
    (smtpDeleteReceiver m a).1.w601Smtp = m.w601Smtp ∧ (smtpDeleteReceiver m a).1.overflow = m.overflow := by
  unfold smtpDeleteReceiver
  split <;> exact ⟨rfl, rfl⟩

theorem smtpSetServerAddr_module (m : Store) (a : List UInt8) (domain : Bool) (port : List UInt8) :
    (smtpSetServerAddr m a domain port).1.w601Smtp = m.w601Smtp ∧
      (smtpSetServerAddr m a domain port).1.overflow = m.overflow := by
  unfold smtpSetServerAddr
  dsimp only
  split_ifs <;> exact ⟨rfl, rfl⟩

theorem smtpSetAuth_module (m : Store) (u p : List UInt8) :
    (smtpSetAuth m u p).1.w601Smtp = m.w601Smtp ∧ (smtpSetAuth m u p).1.overflow = m.overflow := by
  unfold smtpSetAuth
  split_ifs
  · exact ⟨rfl, rfl⟩
  · exact ⟨rfl, rfl⟩
  · split
    · exact ⟨rfl, rfl⟩
    · split <;> exact ⟨rfl, rfl⟩

/-- The strings lie behind `cold_time`. -/
theorem strings_congr {mem mem' : ℤ → UInt8} (h : ∀ i, serverAddrAt ≤ i → mem i = mem' i) :
    strings mem = strings mem' := by
  have hcstr : ∀ i, serverAddrAt ≤ i → cstr mem i = cstr mem' i :=
    fun i hi => readStr_congr fun j hj => h j (hi.trans hj)
  unfold strings
  rw [hcstr serverAddrAt le_rfl, hcstr serverPortAt (by decide), hcstr usernameAt (by decide),
    hcstr passwordAt (by decide), hcstr receiverAt (by decide)]

theorem strings_enable (mem : ℤ → UInt8) (v : UInt8) : strings (Function.update mem enableAt v) = strings mem := by
  refine strings_congr fun i hi => Function.update_of_ne ?_ _ _
  simp only [serverAddrAt, enableAt] at hi ⊢
  omega

theorem dropReceiver_mem (d : Device F) : d.dropReceiver.mem = d.mem := by
  unfold Device.dropReceiver
  split_ifs <;> rfl

theorem saved_mem (atof : List UInt8 → F) (r : Save) (w : List UInt8) (d : Device F) :
    (saved atof r w d).mem = Function.update (copied d.mem r) enableAt 1 := by
  rw [← dropReceiver_mem d]
  rfl

theorem saved_board (atof : List UInt8 → F) (r : Save) (w : List UInt8) (d : Device F) :
    (saved atof r w d).board = d.board := by
  show d.dropReceiver.board = d.board
  unfold Device.dropReceiver
  split_ifs <;> rfl

theorem dropReceiver_store (d : Device F) :
    d.dropReceiver.store =
      if d.store.w601Smtp.receiver ≠ [] then (smtpDeleteReceiver d.store d.store.w601Smtp.receiver).1 else d.store := by
  have hiff : d.store.w601Smtp.receiver ≠ [] ↔ d.mem receiverAt ≠ 0 := cstr_eq_nil.not
  unfold Device.dropReceiver
  by_cases h : d.mem receiverAt ≠ 0
  · rw [if_pos h, if_pos (hiff.2 h)]
    obtain ⟨k1, k2⟩ := smtpDeleteReceiver_module d.store (cstr d.mem receiverAt)
    exact client_store k1 k2
  · rw [if_neg h, if_neg (hiff.not.2 h)]

/-- The setters work on what the copies have left. -/
theorem configure_store (r : Save) (d : Device F) :
    (d.configure r).store =
      smtpAddReceiver
        (smtpSetAuth (smtpSetServerAddr d.store (cstr d.mem serverAddrAt) true (cstr d.mem serverPortAt)).1
          (cstr d.mem usernameAt) (cstr d.mem passwordAt)).1 r.receiver := by
  have hmem : ∀ m, (d.client m).mem = d.mem := fun _ => rfl
  have hclient : ∀ m m', (d.client m).client m' = d.client m' := fun _ _ => rfl
  obtain ⟨k1, k2⟩ := smtpSetServerAddr_module d.store (cstr d.mem serverAddrAt) true (cstr d.mem serverPortAt)
  obtain ⟨j1, j2⟩ :=
    smtpSetAuth_module (smtpSetServerAddr d.store (cstr d.mem serverAddrAt) true (cstr d.mem serverPortAt)).1
      (cstr d.mem usernameAt) (cstr d.mem passwordAt)
  unfold Device.configure
  dsimp only
  rw [hclient, hclient, hmem, client_store k1 k2, client_store (j1.trans k1) (j2.trans k2)]
  exact client_store (j1.trans k1) (j2.trans k2)

/-- **A save does to the strings what `Smtp.smtpDataConfig` does**, when the values fit. -/
theorem saved_refines {r : Save} (hs : Short r) (h0 : NulFree r) (atof : List UInt8 → F) (w : List UInt8)
    (d : Device F) : (saved atof r w d).store = Smtp.smtpDataConfig d.store r := by
  have hstr := strings_copied hs h0 d.dropReceiver.mem
  have hcopied : ({ d.dropReceiver with mem := copied d.dropReceiver.mem r } : Device F).store =
      { d.dropReceiver.store with
        w601Smtp := ⟨r.serverAddr, r.serverPort, r.username, r.password, r.receiver⟩
        overflow := d.dropReceiver.store.overflow || !r.fits } := by
    rw [fits_iff.2 hs]
    simp only [Device.store, hstr, Bool.not_true, Bool.or_false]
  have henable : ∀ (d : Device F) (x : F),
      ({ d with tempWarn := x, mem := Function.update d.mem enableAt 1 } : Device F).store = d.store := by
    intro d x
    simp only [Device.store, strings_enable]
  obtain ⟨e1, e2, e3, e4, -⟩ := SmtpModule.mk.inj hstr
  unfold saved Smtp.smtpDataConfig
  rw [henable, configure_store, hcopied, dropReceiver_store]
  dsimp only
  rw [e1, e2, e3, e4]

/-- **A request that fits is stored as it should be.** -/
theorem stored_saved {r : Save} (hs : Short r) (h0 : NulFree r) (atof : List UInt8 → F) (w : List UInt8)
    (d : Device F) : Stored atof r w d (saved atof r w d) := by
  obtain ⟨k1, k2, k3, k4, k5⟩ := copied_strings hs h0 d.mem
  have hmem := saved_mem atof r w d
  -- the flag lies before the strings
  have hkept : ∀ {i : ℤ} {s : List UInt8}, enableAt < i → StrAt (copied d.mem r) i s →
      StrAt (saved atof r w d).mem i s := by
    intro i s hi h
    rw [hmem]
    exact h.update_below hi 1
  refine ⟨⟨hkept (by decide) k1, hs.serverAddr⟩, ⟨hkept (by decide) k2, hs.serverPort⟩,
    ⟨hkept (by decide) k3, hs.username⟩, ⟨hkept (by decide) k4, hs.password⟩, ⟨hkept (by decide) k5, hs.receiver⟩,
    ?_, ?_, saved_refines hs h0 atof w d, rfl, saved_board atof r w d⟩
  · rw [hmem, Function.update_self]
  · intro i hi hout
    rw [hmem, Function.update_of_ne hi]
    exact copied_outside hs d.mem hout

/-! ## The LED -/

/-- An LED is named and there is no status: the handler ends. -/
theorem ledToggle_null {b : Led.Board} {led : Led.LedId} : Led.cgiLedToggle (some (text led.id)) none b = none := by
  cases led <;> rfl

theorem ledToggle_unknown {id : List UInt8} (h : ∀ led : Led.LedId, id ≠ text led.id) (status : Option (List UInt8))
    (b : Led.Board) : Led.cgiLedToggle (some id) status b = some b := by
  have hr : id ≠ text "red" := h .red
  have hg : id ≠ text "green" := h .green
  have hb : id ≠ text "blue" := h .blue
  simp [Led.cgiLedToggle, Led.strEq, hr, hg, hb]

/-- A toggle that comes to its end. -/
theorem toggled_of_board {id status : List UInt8} {d : Device F} {b : Led.Board}
    (h : Led.cgiLedToggle (some id) (some status) d.board = some b) : Toggled id d { d with board := b } := by
  rcases Led.cgiLedToggle_cases h with ⟨led, rfl, rfl⟩ | ⟨hnone, rfl⟩
  · refine ⟨fun led' hne => ?_, fun led' he => ?_, rfl⟩
    · have hled : led' ≠ led := fun he => hne (by rw [he])
      exact ⟨Function.update_of_ne hled _ _, Function.update_of_ne hled _ _⟩
    · obtain rfl := Led.LedId.id_inj he
      by_cases hoff : status = text "OFF"
      · exact Or.inl (by simp [Led.ledWrite, hoff])
      · exact Or.inr (by simp [Led.ledWrite, hoff])
  · exact ⟨fun _ _ => ⟨rfl, rfl⟩, fun led he => absurd he (hnone led), rfl⟩

/-! ## The requests -/

/-- **`smtp_save`** keeps to its fields exactly when all parameters are there and the strings fit. -/
theorem smtpSave_kept_iff (atof : List UInt8 → F) (items : List QueryItem) (d : Device F) :
    Kept atof (.smtpSave items) d ↔ ∃ r w, saveParams items = .all r w ∧ r.fits = true := by
  have hhandle : (Request.smtpSave items).handle atof d = cgiSmtpSave atof items d := rfl
  unfold Kept
  rw [hhandle]
  constructor
  · intro h
    by_cases hall : ∃ r w, saveParams items = .all r w
    · obtain ⟨r, w, hp⟩ := hall
      rw [cgiSmtpSave_all hp] at h
      rcases h with ⟨hne, -⟩ | ⟨-, r, w, hp, hst⟩
      · exact absurd rfl hne
      · exact ⟨r, w, hp, fits_iff.2
          ⟨hst.serverAddr.2, hst.serverPort.2, hst.username.2, hst.password.2, hst.receiver.2⟩⟩
    · obtain ⟨t, ht⟩ := cgiSmtpSave_null atof hall d
      rw [ht] at h
      exact h.elim
  · rintro ⟨r, w, hp, hfits⟩
    rw [cgiSmtpSave_all hp]
    exact Or.inr ⟨rfl, r, w, hp, stored_saved (fits_iff.1 hfits) (saveParams_nulFree hp) atof w d⟩

/-- What `cgi_led_toggle` comes to. -/
theorem cgiLedToggle_eq (items : List QueryItem) (d : Device F) :
    cgiLedToggle items d =
      match Led.cgiLedToggle (webnetRequestGetQuery items "id") (webnetRequestGetQuery items "status") d.board with
      | none => .error () d
      | some b => .ok codeOk { d with board := b } := by
  unfold cgiLedToggle
  simp only [bind, EStateM.bind, get, getThe, MonadStateOf.get, EStateM.get]
  generalize Led.cgiLedToggle (webnetRequestGetQuery items "id") (webnetRequestGetQuery items "status") d.board = b
  cases b <;> rfl

/-- **`led_toggle`** writes its LED and nothing else exactly when there is an `id`, and a `status` if it names an
LED. -/
theorem ledToggle_kept_iff (atof : List UInt8 → F) (items : List QueryItem) (d : Device F) :
    Kept atof (.ledToggle items) d ↔ (Request.ledToggle items).Proper := by
  have hhandle : (Request.ledToggle items).handle atof d = cgiLedToggle items d := rfl
  unfold Kept Request.Proper
  rw [hhandle, cgiLedToggle_eq]
  dsimp only [Request.Effect]
  generalize webnetRequestGetQuery items "id" = id
  generalize webnetRequestGetQuery items "status" = status
  cases id with
  | none =>
    constructor
    · exact fun h => h.elim
    · rintro ⟨id, hid, -⟩
      exact absurd hid (by simp)
  | some id =>
    by_cases hled : ∃ led : Led.LedId, id = text led.id
    · cases status with
      | none =>
        obtain ⟨led, rfl⟩ := hled
        rw [ledToggle_null]
        constructor
        · exact fun h => h.elim
        · rintro ⟨id, hid, himp⟩
          obtain ⟨s, hs⟩ := himp ⟨led, (Option.some.inj hid).symm⟩
          exact absurd hs (by simp)
      | some status =>
        refine ⟨fun _ => ⟨id, rfl, fun _ => ⟨status, rfl⟩⟩, fun _ => ?_⟩
        obtain ⟨b, hb⟩ : ∃ b, Led.cgiLedToggle (some id) (some status) d.board = some b := by
          obtain ⟨led, rfl⟩ := hled
          cases led <;> exact ⟨_, rfl⟩
        rw [hb]
        exact Or.inr ⟨rfl, id, rfl, toggled_of_board hb⟩
    · push Not at hled
      refine ⟨fun _ => ⟨id, rfl, fun ⟨led, he⟩ => absurd he (hled led)⟩, fun _ => ?_⟩
      rw [ledToggle_unknown hled]
      exact Or.inr ⟨rfl, id, rfl, fun _ _ => ⟨rfl, rfl⟩, fun led he => absurd he (hled led), rfl⟩

/-- **A request does what it may do exactly when it is proper.** -/
theorem settings_kept_iff (atof : List UInt8 → F) (q : Request) (d : Device F) : Kept atof q d ↔ q.Proper := by
  cases q with
  | smtpSave items => exact smtpSave_kept_iff atof items d
  | ledToggle items => exact ledToggle_kept_iff atof items d

/-- The device before anything has run. -/
def Device.boot [Zero F] : Device F := ⟨fun _ => 0, Store.cleared.session, 0, [], 0, .boot⟩

theorem tenDigits_nulFree : ∀ v ∈ some (text "1234567890"), 0 ∉ v := by decide

/-- A save in which every parameter has ten digits. -/
def tenDigits : List QueryItem :=
  ["server_addr", "server_port", "username", "password", "receiver", "temp_warn"].map fun name =>
    ⟨text name, some (text "1234567890"), tenDigits_nulFree⟩

/-- **A save without parameters copies from a null pointer, and a port of ten digits is not stored in its field.** -/
theorem unchecked_saves :
    ¬ Kept (fun _ => (1234567890 : ℤ)) (.smtpSave []) .boot ∧
      ¬ Kept (fun _ => (1234567890 : ℤ)) (.smtpSave tenDigits) .boot := by
  refine ⟨fun h => h.elim, fun h => ?_⟩
  rcases h with ⟨hne, -⟩ | ⟨-, r, w, hp, hst⟩
  · exact hne rfl
  · have hport : some (text "1234567890") = some r.serverPort := congrArg Params.serverPort hp
    have hlen := hst.serverPort.2
    rw [← Option.some.inj hport] at hlen
    revert hlen
    decide

end W601.Settings
